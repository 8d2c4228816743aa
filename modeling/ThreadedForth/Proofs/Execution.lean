import Mathlib
import ThreadedForth.Proofs.Soundness
/-!
# ThreadedForth.Proofs.Execution

What running words does to the dictionary: it may finish the open word, and nothing else.

Words are made of literals and primitives, and whatever bounds the effect of these bounds that of a
word (`EffectBound`). Only `;` touches the dictionary at all (`Primitive.finishes_run`). So whatever
a word calls, and whoever forged the references it follows, the code of every entry is the same
after the run as before it. No assumption about the dictionary is needed for that: it holds of one
that a host has put in disorder as well.
-/

namespace ThreadedForth

namespace Dictionary

/-- `d'` is `d`, or `d` with its open word finished. -/
def Finishes (d d' : Dictionary) : Prop := d' = d ∨ d' = d.finish

variable {d d₁ d₂ : Dictionary}

theorem Finishes.refl (d : Dictionary) : d.Finishes d := .inl rfl

/-- After it is finished once there is no open word left to be finished. -/
theorem Finishes.trans (h₁ : d.Finishes d₁) (h₂ : d₁.Finishes d₂) : d.Finishes d₂ := by
  rcases h₂ with rfl | rfl
  · exact h₁
  · rcases h₁ with rfl | rfl
    · exact .inr rfl
    · exact .inr (finish_of_active_eq_none d.active_finish)

/-- Finishing a word leaves all code as it is. -/
theorem code_finish (d : Dictionary) :
    d.finish.entries.map Word.code = d.entries.map Word.code := by
  unfold finish
  split
  · rfl
  next k _ =>
    apply List.ext_getElem?
    intro i
    by_cases hi : k = i
    · subst hi
      cases h : d.entries[k]? <;> simp [List.getElem?_modify_eq, h]
    · simp [List.getElem?_modify_ne _ _ hi]

/-- Finishing the open word changes no code. -/
theorem Finishes.code_eq (h : d.Finishes d₁) :
    d₁.entries.map Word.code = d.entries.map Word.code := by
  rcases h with rfl | rfl
  · rfl
  · exact d.code_finish

/-- `d'` has as many entries as `d`, and each is the same, or the same and finished. -/
def SameWords (d d' : Dictionary) : Prop :=
  d'.size = d.size ∧ ∀ ⦃i : Nat⦄ ⦃w : Word⦄, d.entries[i]? = some w →
    d'.entries[i]? = some w ∨ d'.entries[i]? = some w.close

theorem SameWords.refl (d : Dictionary) : d.SameWords d := ⟨rfl, fun _ _ hw => .inl hw⟩

/-- Finishing changes the open word only, and only in being finished. -/
theorem sameWords_finish (d : Dictionary) : d.SameWords d.finish := by
  refine ⟨d.size_finish, fun i w hw => ?_⟩
  unfold finish
  split
  · exact .inl hw
  next k _ =>
    show (d.entries.modify k Word.close)[i]? = some w ∨
      (d.entries.modify k Word.close)[i]? = some w.close
    by_cases hi : k = i
    · subst hi
      rw [List.getElem?_modify_eq, hw]
      exact .inr rfl
    · rw [List.getElem?_modify_ne _ _ hi]
      exact .inl hw

/-- Whether or not the open word was finished, no other word changed. -/
theorem Finishes.sameWords (h : d.Finishes d₁) : d.SameWords d₁ := by
  rcases h with rfl | rfl
  · exact .refl _
  · exact d.sameWords_finish

end Dictionary

/-! ### Primitives -/

namespace State

/-- A definition ends with its word finished. -/
theorem finishes_endDefinition (s : State) : s.dict.Finishes s.endDefinition.state.dict := by
  unfold endDefinition
  split
  · exact .refl _
  · exact .inr s.dict_finish

theorem finishes_readName (op : String) (s : State) :
    s.dict.Finishes (s.readName op).state.dict := by
  unfold readName
  split <;> exact .refl _

/-- Looking a name up changes nothing, so a word that reads one keeps what the reading and its own
effect keep. -/
theorem named_keeps {α : Type} {I : State → Prop} {op : String} {s : State}
    (hread : I (s.readName op).state) {next : Word → State → Outcome State α}
    (hnext : ∀ w t, I t → I (next w t).state) :
    I ((s.readName op).bind fun name t => (t.resolve name).bind next).state := by
  have hensures : (s.readName op).Ensures I fun _ => True := ⟨hread, fun _ _ => trivial⟩
  refine (hensures.bind fun name t _ ht => ?_).1
  refine .bind ⟨?_, fun _ _ => trivial⟩ fun w u _ hu => ⟨hnext w u hu, fun _ _ => trivial⟩
  rwa [t.state_resolve name]

theorem finishes_popRef (s : State) : s.dict.Finishes s.popRef.state.dict := by
  rcases s.popRef_ensures.1 with heq | ⟨v, rest, -, heq⟩ <;> rw [heq] <;> exact .refl _

end State

/-- Of all system words only `;` changes the dictionary. -/
theorem SystemWord.finishes_run (w : SystemWord) (s : State) :
    s.dict.Finishes (w.run s).state.dict := by
  cases w with
  | colon =>
      rw [run, Outcome.state_map, State.beginDefinition]
      split <;> exact .refl _
  | semicolon =>
      rw [run, Outcome.state_map]
      exact s.finishes_endDefinition
  | tick =>
      rw [run, Outcome.state_map]
      exact State.named_keeps (I := fun t => s.dict.Finishes t.dict) (s.finishes_readName _)
        fun w t ht => ht
  | execute =>
      rw [run, Outcome.state_map]
      exact s.finishes_popRef
  | words => exact .refl _
  | see =>
      rw [run, Outcome.state_map]
      refine State.named_keeps (I := fun t => s.dict.Finishes t.dict) (s.finishes_readName _)
        fun w t ht => ?_
      cases w.source? <;> exact ht

/-- A primitive finishes the open word, or leaves the dictionary alone. -/
theorem Primitive.finishes_run (p : Primitive) (s : State) :
    s.dict.Finishes (p.run s).state.dict := by
  cases p with
  | data w =>
      obtain ⟨stack, text, -, heq⟩ := (w.runOn_ensures s).1
      rw [run, heq]
      exact .refl _
  | system w => exact w.finishes_run s
  | inert name => exact .refl _

/-! ### All that a word can do -/

/-- `R` relates a state to what literals and primitives make of it, however many of them. -/
structure EffectBound (R : State → State → Prop) : Prop where
  /-- Doing nothing is allowed. -/
  refl : ∀ s, R s s
  /-- What is allowed may be done one after the other. -/
  trans : ∀ {s t u}, R s t → R t u → R s u
  /-- Literals. -/
  push : ∀ s v, R s (s.push v)
  /-- Primitives. -/
  primitive : ∀ (p : Primitive) s, R s (p.run s).state

namespace EffectBound

open Machine

variable {R : State → State → Prop} (hR : EffectBound R)
include hR

/-! A word is made of literals and primitives, and a call leaves the state alone. So whatever
bounds their effects bounds that of a step of the machine, of a run, and of a word. -/

/-- A primitive stays within the bound, also if it calls a word. -/
theorem runPrimitive (limit : Limit) (p : Primitive) (m : Machine) :
    R m.state (m.runPrimitive limit p).state.state := by
  have hrun := hR.primitive p m.state
  unfold Machine.runPrimitive
  cases hp : p.run m.state with
  | fail f s =>
      rw [hp] at hrun
      exact hrun
  | ok wanted s =>
      rw [hp] at hrun
      cases wanted with
      | none => exact hrun
      | some r =>
          -- The call that was asked for pushes a frame and leaves the state alone.
          simp only [Outcome.mapState_ok, Outcome.bind_ok, state_call]
          exact hrun

/-- A cell stays within the bound. -/
theorem runCell (limit : Limit) (c : Cell) (m : Machine) :
    R m.state (m.runCell limit c).state.state := by
  cases c with
  | primitive p => exact hR.runPrimitive limit p m
  | word r =>
      rw [Machine.runCell, state_call]
      exact hR.refl _
  | literal v => exact hR.push _ v

/-- A step stays within the bound. -/
theorem step (limit : Limit) (m : Machine) : R m.state (m.step limit).state.state := by
  unfold Machine.step
  split
  · exact hR.refl _
  next f _ _ =>
    split
    · exact hR.refl _
    next c rest _ => exact hR.runCell limit c { m with calls := m.calls.pop.push { f with rest } }

/-- A run stays within the bound, by induction on its steps. -/
theorem run (limit : Limit) (base : Nat) (m : Machine) :
    R m.state (m.run limit base).state.state := by
  fun_induction Machine.run limit base m with
  | case1 m _ m₁ hstep ih =>
      have hnext := hR.step limit m
      rw [hstep] at hnext
      exact hR.trans hnext ih
  | case2 m _ f m₁ hstep =>
      have hnext := hR.step limit m
      rw [hstep] at hnext
      exact hnext
  | case3 m _ => exact hR.refl _

/-- Executing a word, also one that fails, has the effect of literals and primitives. -/
theorem executeWord (limit : Limit) (handle : Int) (m : Machine) :
    R m.state (m.executeWord limit handle).state.state := by
  have hcall := m.state_call limit handle
  unfold Machine.executeWord
  cases hc : m.call limit handle with
  | fail f m₁ =>
      rw [hc] at hcall
      rw [Outcome.state_fail, show m₁.state = m.state from hcall]
      exact hR.refl _
  | ok a m₁ =>
      rw [hc] at hcall
      have hrun := hR.run limit m.calls.depth m₁
      rw [show m₁.state = m.state from hcall] at hrun
      simp only
      cases hr : m₁.run limit m.calls.depth with
      | ok a m₂ =>
          rw [hr] at hrun
          exact hrun
      | fail f m₂ =>
          rw [hr] at hrun
          exact hrun

/-! The evaluator is made of the same things. -/

/-- A cell stays within the bound if the words it may call do. -/
theorem evalCell {call : Int → State → Outcome State Unit}
    (hcall : ∀ h s, R s (call h s).state) (c : Cell) (s : State) :
    R s (evalCell call c s).state := by
  cases c with
  | literal v => exact hR.push s v
  | word r => exact hcall r.handle s
  | primitive p =>
      have hrun := hR.primitive p s
      simp only [ThreadedForth.evalCell]
      cases hp : p.run s with
      | fail f t =>
          rw [hp] at hrun
          exact hrun
      | ok wanted t =>
          rw [hp] at hrun
          cases wanted with
          | none => exact hrun
          | some r => exact hR.trans hrun (hcall r.handle t)

/-- Cells stay within the bound one after another. -/
theorem evalCode {call : Int → State → Outcome State Unit}
    (hcall : ∀ h s, R s (call h s).state) (code : List Cell) :
    ∀ s, R s (evalCode call code s).state := by
  induction code with
  | nil => exact hR.refl
  | cons c code ih =>
      intro s
      have hcell := hR.evalCell hcall c s
      simp only [ThreadedForth.evalCode]
      cases hc : ThreadedForth.evalCell call c s with
      | fail f t =>
          rw [hc] at hcell
          exact hcell
      | ok a t =>
          rw [hc] at hcell
          exact hR.trans hcell (ih t)

/-- A nested call stays within the bound, by induction on the room that is left. -/
theorem evalCall (limit : Limit) (free : Nat) :
    ∀ (handle : Int) (s : State), R s (evalCall limit free handle s).state := by
  induction free with
  | zero =>
      intro handle s
      unfold ThreadedForth.evalCall
      split <;> exact hR.refl s
  | succ free ih =>
      intro handle s
      cases hw : s.dict.word? handle with
      | none =>
          rw [evalCall_of_word?_eq_none limit hw]
          exact hR.refl s
      | some w =>
          have hcode := hR.evalCode ih w.code s
          rw [evalCall_succ limit hw]
          cases hc : ThreadedForth.evalCode (ThreadedForth.evalCall limit free) w.code s with
          | fail f t =>
              rw [hc] at hcode
              exact hcode
          | ok a t =>
              rw [hc] at hcode
              exact hcode

end EffectBound

/-! ### Runs -/

/-- No primitive does more to the dictionary than finish its open word. -/
theorem effectBound_finishes : EffectBound fun s t => s.dict.Finishes t.dict where
  refl := fun _ => .refl _
  trans := .trans
  push := fun _ _ => .refl _
  primitive := Primitive.finishes_run

namespace Machine

theorem finishes_step (limit : Limit) (m : Machine) :
    m.state.dict.Finishes (m.step limit).state.state.dict :=
  effectBound_finishes.step limit m

/-- Executing a word, also one that fails, finishes the open word or leaves the dictionary
alone. -/
theorem finishes_executeWord (limit : Limit) (handle : Int) (m : Machine) :
    m.state.dict.Finishes (m.executeWord limit handle).state.state.dict :=
  effectBound_finishes.executeWord limit handle m

/-- A token that runs an immediate word while another one is compiled finishes the open word or
leaves the dictionary alone. The token `;` is no exception, whatever word its name means. -/
theorem finishes_dispatch_immediate (limit : Limit) {m : Machine} {k h : Nat} {name : String}
    {w : Word} (hmode : m.state.mode = .compile) (hk : m.state.dict.active = some k)
    (hl : m.state.dict.lookupOutside name = some h) (hw : m.state.dict.entries[h]? = some w)
    (himmediate : w.immediate = true) :
    m.state.dict.Finishes (m.dispatch limit (.name name)).state.state.dict := by
  simp only [dispatch, hmode, hk, compileToken]
  by_cases hname : name = SystemWord.semicolon.name
  · rw [if_pos hname, Outcome.state_mapState]
    exact m.state.finishes_endDefinition
  · simp only [if_neg hname, compileName, hl, hw, himmediate, if_true]
    exact finishes_executeWord limit h (m.withState (m.state.record _))

/-- Running a word writes no code. Whatever state and frames it starts from, and however it ends,
the dictionary is the same afterwards, or the open word is finished and no longer open. So there are
as many entries, with the same names, handles, flags and code; and a token that runs an immediate
word while another one is compiled adds no cell to any word. -/
theorem executeWord_writes_no_code (limit : Limit) (handle : Int) (m : Machine) {d d' : Dictionary}
    (hd : d = m.state.dict) (hd' : d' = (m.executeWord limit handle).state.state.dict) :
    (d' = d ∨ ∃ k, d.active = some k ∧ d' = { d.modify k Word.close with active := none }) ∧
    d'.size = d.size ∧
    (∀ (i : Nat) (w : Word), d.entries[i]? = some w → ∃ w' : Word, d'.entries[i]? = some w' ∧
      w'.name = w.name ∧ w'.handle = w.handle ∧ w'.immediate = w.immediate ∧
      w'.hidden = w.hidden ∧ w'.code = w.code) ∧
    ∀ (k h : Nat) (name : String) (w : Word), m.state.mode = .compile → d.active = some k →
      d.lookupOutside name = some h → d.entries[h]? = some w → w.immediate = true →
      (m.dispatch limit (.name name)).state.state.dict.entries.map Word.code =
        d.entries.map Word.code := by
  have hfinishes : d.Finishes d' := by
    rw [hd, hd']
    exact finishes_executeWord limit handle m
  refine ⟨?_, hfinishes.sameWords.1, fun i w hw => ?_, ?_⟩
  · rcases hfinishes with heq | heq
    · exact .inl heq
    · cases hk : d.active with
      | none => exact .inl (heq.trans (Dictionary.finish_of_active_eq_none hk))
      | some k => exact .inr ⟨k, rfl, by rw [heq, Dictionary.finish, hk]⟩
  · rcases hfinishes.sameWords.2 hw with hw' | hw'
    · exact ⟨w, hw', rfl, rfl, rfl, rfl, rfl⟩
    · exact ⟨w.close, hw', rfl, rfl, rfl, rfl, rfl⟩
  · intro k h name w hmode hk hl hw himmediate
    rw [hd] at hk hl hw ⊢
    exact (finishes_dispatch_immediate limit hmode hk hl hw himmediate).code_eq

/-- The immediate word `fin` runs `;` by reference, so the token `fin` finishes the word `x`. -/
theorem executeWord_writes_no_code_fin :
    ∃ (m : Machine) (k h : Nat) (w : Word),
      initial.execute (.atMost 9) false ": fin immediate execute ; ' ; : x 1" = .ok () m ∧
      m.state.mode = .compile ∧ m.state.dict.active = some k ∧
      m.state.dict.lookupOutside "fin" = some h ∧ m.state.dict.entries[h]? = some w ∧
      w.immediate = true ∧
      (m.executeWord (.atMost 9) h).state.state.dict =
        { m.state.dict.modify k Word.close with active := none } ∧
      (m.dispatch (.atMost 9) (.name "fin")).state.state.dict.entries.map Word.code =
        m.state.dict.entries.map Word.code := by
  obtain ⟨m, k, h, w, hm, hmode, hk, hl, hw, himmediate, hclosed⟩ :
      ∃ (m : Machine) (k h : Nat) (w : Word),
        initial.execute (.atMost 9) false ": fin immediate execute ; ' ; : x 1" = .ok () m ∧
        m.state.mode = .compile ∧ m.state.dict.active = some k ∧
        m.state.dict.lookupOutside "fin" = some h ∧ m.state.dict.entries[h]? = some w ∧
        w.immediate = true ∧ (m.executeWord (.atMost 9) h).state.state.dict.active = none :=
    ⟨_, _, _, _, by cbv, by cbv, by cbv, by cbv, by cbv, by cbv, by cbv⟩
  obtain ⟨hdict, -, -, hcode⟩ := executeWord_writes_no_code (.atMost 9) h m rfl rfl
  refine ⟨m, k, h, w, hm, hmode, hk, hl, hw, himmediate, ?_,
    hcode k h "fin" w hmode hk hl hw himmediate⟩
  rcases hdict with hsame | ⟨j, hj, hfinished⟩
  · rw [hsame, hk] at hclosed
    cases hclosed
  · obtain rfl : k = j := Option.some.inj (hk.symm.trans hj)
    exact hfinished

end Machine

end ThreadedForth
