import Mathlib
import ThreadedForth.Proofs.Execution
import ThreadedForth.Proofs.Simulation
/-!
# ThreadedForth.Proofs.Binding

Words are bound early: a word keeps the meaning it had when its definition ended.

Three things make it so. Nothing a session does alters a finished entry, be it visible or hidden
(`Machine.retains_invariant`): a definition of the same name appends an entry, a failure buries the
open one, and only the newest word is ever made immediate. Code refers to entries and not to names,
so it goes on meaning what it meant (`Simulation.evalCall_entry`). And apart from the entries it
calls, a word sees nothing of the dictionary, unless it looks up names or lists them.

Words may set the mode: a run of `:` begins a definition without a name, and `;` ends it. That is
why the mode is one of the things that two runs share here (`State.Abreast`).
-/

namespace ThreadedForth

/-! ### Finished entries -/

namespace Dictionary

variable {d d' : Dictionary} {k : Nat} {f : Word → Word} {a : Option Nat}

/-- Every finished entry of `d`, visible or not, is the same entry in `d'`. -/
def Retains (d d' : Dictionary) : Prop :=
  ∀ ⦃i : Nat⦄ ⦃w : Word⦄, d.entries[i]? = some w → w.sealed = true → d'.entries[i]? = some w

theorem Retains.refl (d : Dictionary) : d.Retains d := fun _ _ h _ => h

theorem Retains.trans {d₁ d₂ d₃ : Dictionary} (h₁ : d₁.Retains d₂) (h₂ : d₂.Retains d₃) :
    d₁.Retains d₃ :=
  fun _ _ h hsealed => h₂ (h₁ h hsealed) hsealed

/-- A new entry leaves all finished ones as they are. -/
theorem retains_append (d : Dictionary) (e : Word) (a : Option Nat) :
    d.Retains ⟨d.entries ++ [e], a⟩ := by
  intro i w hw _
  have hlt : i < d.entries.length := (List.getElem?_eq_some_iff.1 hw).1
  exact (List.getElem?_append_left hlt).trans hw

/-- An entry may change if it is not finished. -/
theorem retains_modify (hf : ∀ w, d.entries[k]? = some w → w.sealed = true → f w = w) :
    d.Retains ⟨d.entries.modify k f, a⟩ := by
  intro i w hw hsealed
  show (d.entries.modify k f)[i]? = some w
  by_cases hi : k = i
  · subst hi
    rw [List.getElem?_modify_eq, hw, Option.map_eq_map, Option.map_some, hf w hw hsealed]
  · rw [List.getElem?_modify_ne f d.entries hi, hw]

/-- Closing the open word touches no finished entry: an open word is not finished yet. -/
theorem retains_finish (d : Dictionary) : d.Retains d.finish := by
  unfold finish
  split
  · exact .refl d
  next k _ =>
    refine retains_modify fun w _ hsealed => ?_
    -- Finishing a word again changes nothing.
    rw [Word.close, ← hsealed]

theorem Finishes.retains (h : d.Finishes d') : d.Retains d' := by
  rcases h with rfl | rfl
  · exact .refl _
  · exact d.retains_finish

/-- Giving up the open word touches no finished entry of a dictionary in order. -/
theorem Coherent.retains_abandon {mode : Mode} (h : d.Coherent mode) : d.Retains d.abandon := by
  unfold Dictionary.abandon
  split
  · exact .refl d
  next k hk =>
    refine retains_modify fun w hw hsealed => ?_
    obtain ⟨-, -, v, hv, hopen, -⟩ := h.of_active hk
    obtain rfl : v = w := Option.some.inj (hv.symm.trans hw)
    exact absurd hsealed (by simp [hopen])

/-- A cell is appended to an open word only; a finished one refuses it. -/
theorem retains_extend (d : Dictionary) (k : Nat) (c : Cell) :
    d.Retains (d.extend k c).state := by
  unfold extend
  split
  · exact .refl d
  next w hw =>
    split
    · exact .refl d
    next hopen =>
      refine retains_modify fun v hv hsealed => ?_
      obtain rfl : w = v := Option.some.inj (hw.symm.trans hv)
      exact absurd hsealed hopen

end Dictionary

namespace Machine

variable {limit : Limit} {m : Machine}

/-- A new definition leaves all finished entries as they are, also with the marker. -/
theorem retains_startDefinition (m : Machine) (t : Token) :
    m.state.dict.Retains (m.startDefinition t).state.dict := by
  have hdefine : m.state.dict.Retains (m.state.dict.define t.text) :=
    Dictionary.retains_append _ _ _
  unfold startDefinition
  simp only
  split
  · split
    · refine hdefine.trans (Dictionary.retains_modify fun w hw hsealed => ?_)
      -- The entry that is made immediate was appended a moment ago.
      obtain rfl : ({ name := t.text, handle := m.state.dict.size } : Word) = w :=
        Option.some.inj (List.getElem?_concat_length.symm.trans hw)
      exact absurd hsealed (by simp)
    · exact hdefine
  · exact hdefine

/-- No act of a session alters a finished entry. -/
theorem retains_act {a : Act} (ha : a.Allowed m) (hm : m.Sound .initial) :
    m.state.dict.Retains (a.perform limit m).state.state.dict := by
  cases a with
  | word h => exact (m.finishes_executeWord limit h).retains
  | top =>
      have hpop := m.state.finishes_popRef
      unfold Act.perform Session.executeTop
      cases hr : m.state.popRef with
      | fail f s =>
          rw [hr] at hpop
          exact hpop.retains
      | ok r s =>
          rw [hr] at hpop
          exact (hpop.trans ((m.withState s).finishes_executeWord limit r.handle)).retains
  | pop =>
      simp only [Act.perform, Outcome.state_map, Session.onStack, Outcome.state_mapState]
      exact .refl _
  | finish =>
      simp only [Act.perform, Outcome.state_ok, state_withState, State.dict_finish]
      exact m.state.dict.retains_finish
  | define t => exact m.retains_startDefinition t
  | extend k c =>
      simp only [Act.perform, Machine.extend, Outcome.state_mapState, state_withState]
      exact m.state.dict.retains_extend k c
  | endDefinition =>
      simp only [Act.perform, Outcome.state_mapState, state_withState]
      exact m.state.finishes_endDefinition.retains
  | abort =>
      have habort : m.abort.state.dict = m.state.dict.abandon := (m.state.withStack []).dict_abandon
      simp only [Act.perform, Outcome.state_ok, habort]
      exact hm.state.coherent.retains_abandon
  | _ => exact .refl _

/-- In a session driven by source, what was finished once stays as it is. -/
theorem retains_invariant (limit : Limit) (d : Dictionary) :
    Invariant limit (fun m => m.Sound .initial ∧ d.Retains m.state.dict)
      (Fault.Foreseen limit) where
  act := by
    intro a m ha hm
    have hsound := (sound_invariant limit .initial).act a ha hm.1
    exact ⟨⟨hsound.1, hm.2.trans (retains_act ha hm.1)⟩, hsound.2⟩
  plain := fun hf => hf.foreseen

end Machine

/-! ### Words that look up no names -/

/-- The primitive works on the stack, the output and the mode alone. -/
def Primitive.Blind (p : Primitive) : Prop :=
  p ≠ .system .tick ∧ p ≠ .system .execute ∧ p ≠ .system .words ∧ p ≠ .system .see

/-- The two states come from `s₀` and `t₀` by the same changes to the stack, the mode and the
output. -/
def State.Abreast (s₀ t₀ s t : State) : Prop :=
  ∃ stack mode text, s = ({ s₀.withStack stack with mode }).write text ∧
    t = ({ t₀.withStack stack with mode }).write text

namespace State

variable {s₀ t₀ s t : State}

theorem Abreast.refl (hstack : s₀.stack = t₀.stack) (hmode : s₀.mode = t₀.mode) :
    Abreast s₀ t₀ s₀ t₀ :=
  ⟨s₀.stack, s₀.mode, "", by simp [State.withStack, write],
    by simp [hstack, hmode, State.withStack, write]⟩

/-- Changing both stacks alike, and writing the same text, keeps two states abreast. -/
theorem Abreast.withStack (h : Abreast s₀ t₀ s t) (stack : Stack) (text : String) :
    Abreast s₀ t₀ ((s.withStack stack).write text) ((t.withStack stack).write text) := by
  obtain ⟨stack', mode, text', rfl, rfl⟩ := h
  exact ⟨stack, mode, text' ++ text, by simp [State.withStack, write, String.append_assoc],
    by simp [State.withStack, write, String.append_assoc]⟩

theorem finish_of_active_eq_none (h : s.dict.active = none) : s.finish = s := by
  have hword : s.dict.activeWord? = none := by simp [Dictionary.activeWord?, h]
  simp only [finish, hword, Dictionary.finish_of_active_eq_none h]

/-- With no word open in either dictionary, `:` does the same in both states. -/
theorem alike_beginDefinition (hs : s.dict.active = none) (ht : t.dict.active = none)
    (h : Abreast s₀ t₀ s t) :
    Outcome.Alike (Abreast s₀ t₀) s.beginDefinition t.beginDefinition := by
  have hword : s.dict.activeWord? = none := by simp [Dictionary.activeWord?, hs]
  have hword' : t.dict.activeWord? = none := by simp [Dictionary.activeWord?, ht]
  simp only [beginDefinition, hword, hword']
  obtain ⟨stack, mode, text, rfl, rfl⟩ := h
  exact .ok ⟨stack, .compile, text, rfl, rfl⟩

/-- With no word open in either dictionary, `;` does the same in both states. -/
theorem alike_endDefinition (hs : s.dict.active = none) (ht : t.dict.active = none)
    (h : Abreast s₀ t₀ s t) :
    Outcome.Alike (Abreast s₀ t₀) s.endDefinition t.endDefinition := by
  unfold endDefinition
  rw [finish_of_active_eq_none hs, finish_of_active_eq_none ht]
  obtain ⟨stack, mode, text, rfl, rfl⟩ := h
  cases mode with
  | interpret => exact .fail ⟨stack, .interpret, text, rfl, rfl⟩
  | compile => exact .ok ⟨stack, .interpret, text, rfl, rfl⟩

end State

/-- Words made of blind primitives cannot tell two dictionaries apart that offer what they call. -/
theorem Simulation.of_blind {d : Dictionary} {s₀ t₀ : State} (hs : d.Keeps s₀.dict)
    (ht : d.Keeps t₀.dict) (hactive : s₀.dict.active = none) (hactive' : t₀.dict.active = none) :
    Simulation d Primitive.Blind (State.Abreast s₀ t₀) where
  keeps := by
    rintro s t ⟨stack, mode, text, rfl, rfl⟩
    exact ⟨hs, ht⟩
  push := by
    rintro s t n ⟨stack, mode, text, rfl, rfl⟩
    exact ⟨.int n :: stack, mode, text, rfl, rfl⟩
  run := by
    rintro p s t ⟨htick, hexecute, hwords, hsee⟩ h
    obtain ⟨hsd, htd, hstack⟩ : s.dict.active = none ∧ t.dict.active = none ∧
        s.stack = t.stack := by
      obtain ⟨stack, mode, text, rfl, rfl⟩ := h
      exact ⟨hactive, hactive', rfl⟩
    cases p with
    | inert name => exact .ok h
    | data w => exact w.alike_runOn hstack h.withStack
    | system w =>
        cases w with
        | colon => exact (State.alike_beginDefinition hsd htd h).map _
        | semicolon => exact (State.alike_endDefinition hsd htd h).map _
        | tick => exact absurd rfl htick
        | execute => exact absurd rfl hexecute
        | words => exact absurd rfl hwords
        | see => exact absurd rfl hsee
  ne_execute := fun hp => hp.2.1

/-- An entry keeps related states related as a word that is offered does; so does one that was
abandoned, because the code it got before that calls offered words only. -/
theorem Simulation.evalCall_entry (limit : Limit) {d : Dictionary} {mode : Mode}
    {P : Primitive → Prop} {R : State → State → Prop} (hsim : Simulation d P R)
    (hd : d.Coherent mode) {i : Nat} {w : Word} (hw : d.entries[i]? = some w)
    (hP : ∀ p, d.Uses i p → P p) {s t : State} (h : R s t) (hs : s.dict.entries[i]? = some w)
    (ht : t.dict.entries[i]? = some w) (free : Nat) :
    Outcome.Alike R (ThreadedForth.evalCall limit free i s)
      (ThreadedForth.evalCall limit free i t) := by
  have hentry : ∀ {e : Dictionary}, e.entries[i]? = some w → e.word? i = some w := by
    intro e he
    rw [Dictionary.word?, itemAt?_natCast, he]
  cases free with
  | zero =>
      rw [evalCall_zero limit (hentry hs), evalCall_zero limit (hentry ht)]
      exact .fail h
  | succ free =>
      rw [evalCall_succ limit (hentry hs), evalCall_succ limit (hentry ht)]
      refine .mapFault _ (hsim.evalCode (hsim.evalCall hd free) w.code (hd.admits hw) ?_ h)
      exact fun c hc p hp => hP p (Dictionary.uses_of_mem (hentry hw) hc hp)

namespace Machine

/-- The machine with another stack, and no input. -/
def prepare (stack : Stack) (m : Machine) : Machine :=
  m.withState ((m.state.withStack stack).withInput none)

/-- What a simulation says of nested calls, said of machines with no word running. -/
theorem alike_executeWord (limit : Limit) {d : Dictionary} {mode : Mode} {P : Primitive → Prop}
    {R : State → State → Prop} (hsim : Simulation d P R) (hd : d.Coherent mode) {i : Nat} {w : Word}
    (hw : d.entries[i]? = some w) (hP : ∀ p, d.Uses i p → P p) {m n : Machine}
    (hm : m.calls = .empty) (hn : n.calls = .empty) (h : R m.state n.state)
    (hs : m.state.dict.entries[i]? = some w) (ht : n.state.dict.entries[i]? = some w) :
    Outcome.Alike (fun m' n' => R m'.state n'.state) (m.executeWord limit i)
      (n.executeWord limit i) := by
  rw [executeWord_of_idle hm, executeWord_of_idle hn]
  exact (hsim.evalCall_entry limit hd hw hP h hs ht limit.room).mapState fun hst => hst

end Machine

namespace Session

/-- An entry that is there while no word is open is there, the same, ever after. -/
theorem exists_entry {limit : Limit} {m : Machine} {cs : List Command} {h : Nat}
    (hm : Reaches limit m) (hcs : ∀ c ∈ cs, c.SourceDriven) (hmode : m.state.mode = .interpret)
    (hh : h < m.state.dict.size) :
    ∃ w, m.state.dict.entries[h]? = some w ∧
      (after limit m cs).state.dict.entries[h]? = some w := by
  have hsound : m.Sound .initial := .of_reaches hm
  have hcoherent : m.state.dict.Coherent .interpret := hmode ▸ hsound.state.coherent
  obtain ⟨w, hw⟩ : ∃ w, m.state.dict.entries[h]? = some w := ⟨_, List.getElem?_eq_getElem hh⟩
  have hsealed : w.sealed = true := by
    refine hcoherent.sealed_of_ne hw ?_
    rw [hcoherent.active_eq_none]
    simp
  obtain ⟨-, hretains⟩ :=
    (Machine.retains_invariant limit m.state.dict).after cs hcs ⟨hsound, .refl _⟩
  exact ⟨w, hw, hretains hw hsealed⟩

/-- Words keep their meaning. Let the interpreter not be compiling at two moments of a session
driven by source. An entry that is there at the first one, and from which no word is reached that
reads or lists names or executes a reference, does the same at both: on every stack it ends with the
same stack, mode and fault, and writes the same text. -/
theorem early_binding {limit : Limit} {m : Machine} {cs : List Command} {h : Nat}
    (hm : Reaches limit m) (hcs : ∀ c ∈ cs, c.SourceDriven) (hmode : m.state.mode = .interpret)
    (hmode' : (after limit m cs).state.mode = .interpret) (hh : h < m.state.dict.size)
    (huses : ∀ w ∈ [SystemWord.tick, .execute, .words, .see], ¬ m.state.dict.Uses h (.system w))
    (stack : Stack) {x y : Outcome Machine Unit} (hx : x = (m.prepare stack).executeWord limit h)
    (hy : y = ((after limit m cs).prepare stack).executeWord limit h) :
    x.fault? = y.fault? ∧ x.state.state.stack = y.state.state.stack ∧
      x.state.state.mode = y.state.state.mode ∧
      ∃ text, x.state.state.out = m.state.out ++ text ∧
        y.state.state.out = (after limit m cs).state.out ++ text := by
  have hsound : m.Sound m.state.dict := by
    have hinitial := Machine.Sound.of_reaches hm
    exact ⟨hinitial.state, .refl _, hinitial.frames⟩
  have hsound' := (Machine.sound_invariant limit m.state.dict).after cs hcs hsound
  have hd : m.state.dict.Coherent .interpret := hmode ▸ hsound.state.coherent
  have hd' : (after limit m cs).state.dict.Coherent .interpret := hmode' ▸ hsound'.state.coherent
  have hidle : m.calls = .empty := Machine.calls_of_reaches hm
  have hidle' := (Machine.idle_invariant limit).after cs hcs hidle
  have hblind : ∀ p, m.state.dict.Uses h p → p.Blind := by
    intro p hp
    refine ⟨?_, ?_, ?_, ?_⟩ <;> rintro rfl <;> exact huses _ (by simp) hp
  have hsim : Simulation m.state.dict Primitive.Blind
      (State.Abreast (m.prepare stack).state ((after limit m cs).prepare stack).state) :=
    .of_blind (.refl _) hsound'.keeps hd.active_eq_none hd'.active_eq_none
  have hstart : State.Abreast (m.prepare stack).state ((after limit m cs).prepare stack).state
      (m.prepare stack).state ((after limit m cs).prepare stack).state :=
    .refl rfl (hmode.trans hmode'.symm)
  obtain ⟨w, hw, hw'⟩ := exists_entry hm hcs hmode hh
  have halike : Outcome.Alike (fun m' n' => State.Abreast (m.prepare stack).state
      ((after limit m cs).prepare stack).state m'.state n'.state) x y := by
    rw [hx, hy]
    exact Machine.alike_executeWord limit hsim hd hw hblind hidle hidle' hstart hw hw'
  obtain ⟨stack', mode, text, hs, ht⟩ := halike.state
  refine ⟨halike.fault?_eq, ?_, ?_, text, ?_, ?_⟩
  · rw [hs, ht]
    rfl
  · rw [hs, ht]
    rfl
  · rw [hs]
    rfl
  · rw [ht]
    rfl

/-- A square is a square, even after `dup` and a failed attempt at `*` were redefined. -/
theorem early_binding_square :
    ∃ m : Machine, ∃ cs : List Command, Reaches (.atMost 9) m ∧ (∀ c ∈ cs, c.SourceDriven) ∧
      m.state.mode = .interpret ∧ (after (.atMost 9) m cs).state.mode = .interpret ∧
      23 < m.state.dict.size ∧
      (∀ w ∈ [SystemWord.tick, .execute, .words, .see], ¬ m.state.dict.Uses 23 (.system w)) ∧
      (after (.atMost 9) m cs).state.dict.lookup "dup" = some 24 ∧
      (((after (.atMost 9) m cs).prepare [.int 7]).executeWord (.atMost 9) 23).state.state.stack =
        [.int 49] := by
  have hreaches : Reaches (.atMost 9)
      (perform (.atMost 9) .initial (.execute ": sq dup * ;" true)).2.state :=
    .perform (.execute ": sq dup * ;" true) trivial .fresh
  obtain ⟨m, hm, hmode, hsq, hdup, htimes, hsize, hmode', hlookup, hstack⟩ : ∃ m : Machine,
      Reaches (.atMost 9) m ∧ m.state.mode = .interpret ∧
      m.state.dict.word? 23 = some
        { name := "sq", handle := 23, sealed := true,
          code := [.word ⟨6, "dup"⟩, .word ⟨16, "*"⟩] } ∧
      m.state.dict.word? 6 = some
        { name := "dup", handle := 6, sealed := true, code := [.primitive (.data .dup)] } ∧
      m.state.dict.word? 16 = some
        { name := "*", handle := 16, sealed := true, code := [.primitive (.data .mul)] } ∧
      23 < m.state.dict.size ∧
      (after (.atMost 9) m [.execute ": dup drop 1 ;" true, .execute ": * dup nonsense" false,
        .abort]).state.mode = .interpret ∧
      (after (.atMost 9) m [.execute ": dup drop 1 ;" true, .execute ": * dup nonsense" false,
        .abort]).state.dict.lookup "dup" = some 24 ∧
      ((m.prepare [.int 7]).executeWord (.atMost 9) 23).state.state.stack = [.int 49] :=
    ⟨_, hreaches, by cbv, by cbv, by cbv, by cbv, by cbv, by cbv, by cbv, by cbv⟩
  have hcs : ∀ c ∈ [Command.execute ": dup drop 1 ;" true, .execute ": * dup nonsense" false,
      .abort], c.SourceDriven := by
    simp [Command.SourceDriven]
  have huses : ∀ w ∈ [SystemWord.tick, .execute, .words, .see],
      ¬ m.state.dict.Uses 23 (.system w) := by
    intro w _ hw
    cases hw with
    | primitive hv hmem =>
        obtain rfl := Option.some.inj (hsq.symm.trans hv)
        simp at hmem
    | word hv hmem hr =>
        obtain rfl := Option.some.inj (hsq.symm.trans hv)
        simp only [List.mem_cons, List.not_mem_nil, or_false, Cell.word.injEq] at hmem
        rcases hmem with rfl | rfl
        · exact absurd (hr.eq_of_code hdup rfl) (by simp)
        · exact absurd (hr.eq_of_code htimes rfl) (by simp)
  obtain ⟨-, heq, -⟩ := early_binding hm hcs hmode hmode' hsize huses [.int 7] rfl rfl
  exact ⟨m, _, hm, hcs, hmode, hmode', hsize, huses, hlookup, heq.symm.trans hstack⟩

end Session

end ThreadedForth
