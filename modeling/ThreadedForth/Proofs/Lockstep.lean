import ThreadedForth.Proofs.Simulation
/-!
# ThreadedForth.Proofs.Lockstep

Two interpreters at the same source, side by side.

They may run under different limits and start from different machines, as long as they agree on all
that decides what is done next: the mode, the dictionary and the unread input. Then they perform the
same acts in the same order, so a relation that every act keeps is kept by tokens, by loops over
tokens and by whole sources (`Lockstep`). One of the two may be allowed to drop out: the relation
ends where the first of them fails with a fault that is given in advance (`Outcome.AlikeUnless`).

Running a word is one act, and what it takes for two states to stay related while a word runs on
both is said once as well (`Interchangeable`): it is enough to look at literals and primitives.
-/

namespace ThreadedForth

/-- The outcomes are alike, unless the first one is a failure with a fault in `E`. -/
def Outcome.AlikeUnless {σ τ α : Type} (E : Fault → Prop) (R : σ → τ → Prop) (x : Outcome σ α)
    (y : Outcome τ α) : Prop :=
  (∃ f, x.fault? = some f ∧ E f) ∨ Alike R x y

namespace Outcome.AlikeUnless

variable {σ τ α β : Type} {E : Fault → Prop} {R Q : σ → τ → Prop} {x : Outcome σ α}
  {y : Outcome τ α}

theorem ok {a : α} {s : σ} {t : τ} (h : R s t) : AlikeUnless E R (.ok a s) (.ok a t) := .inr (.ok h)

theorem fail {f : Fault} {s : σ} {t : τ} (h : R s t) :
    AlikeUnless E R (.fail f s : Outcome σ α) (.fail f t : Outcome τ α) :=
  .inr (.fail h)

/-- Sequencing, with what the first part ended with. -/
theorem bind {next : α → σ → Outcome σ β} {next' : α → τ → Outcome τ β} (h : AlikeUnless E R x y)
    (hfail : ∀ {s t}, R s t → Q s t)
    (hnext : ∀ a {s t}, x = .ok a s → R s t → AlikeUnless E Q (next a s) (next' a t)) :
    AlikeUnless E Q (x.bind next) (y.bind next') := by
  rcases h with ⟨f, hf, hE⟩ | h
  · obtain ⟨s, rfl⟩ := exists_eq_fail hf
    exact .inl ⟨f, rfl, hE⟩
  · cases h with
    | ok hst => exact hnext _ rfl hst
    | fail hst => exact .inr (.fail (hfail hst))

end Outcome.AlikeUnless

open Outcome (Alike AlikeUnless)

/-! ### Words -/

/-- No word can tell two states apart that are related by `R`: literals and primitives keep them
related, and they have the same words. -/
structure Interchangeable (R : State → State → Prop) : Prop where
  /-- The words are the same. -/
  dict_eq : ∀ {s t}, R s t → s.dict = t.dict
  /-- A literal keeps the states related. -/
  push : ∀ {s t} v, R s t → R (s.push v) (t.push v)
  /-- A primitive keeps the states related, and does the same in both. -/
  run : ∀ {s t} (p : Primitive), R s t → Alike R (p.run s) (p.run t)

namespace Interchangeable

variable {R : State → State → Prop} (hR : Interchangeable R)
include hR

/-- A cell does the same in both states, if the words that it can call do. -/
theorem evalCell {call : Int → State → Outcome State Unit}
    (hcall : ∀ h {s t}, R s t → Alike R (call h s) (call h t)) (c : Cell) {s t : State}
    (hst : R s t) : Alike R (evalCell call c s) (evalCell call c t) := by
  cases c with
  | literal v => exact .ok (hR.push v hst)
  | word r => exact hcall r.handle hst
  | primitive p =>
      refine (hR.run p hst).bind (fun h => h) ?_
      intro wanted s' t' hst'
      cases wanted with
      | none => exact .ok hst'
      | some r => exact hcall r.handle hst'

/-- So does a list of cells, by induction on it. -/
theorem evalCode {call : Int → State → Outcome State Unit}
    (hcall : ∀ h {s t}, R s t → Alike R (call h s) (call h t)) (code : List Cell) :
    ∀ {s t : State}, R s t → Alike R (evalCode call code s) (evalCode call code t) := by
  induction code with
  | nil =>
      intro s t hst
      exact .ok hst
  | cons c code ih =>
      intro s t hst
      refine (hR.evalCell hcall c hst).bind (fun h => h) ?_
      intro _ s' t' hst'
      exact ih hst'

/-- So does a word, by induction on the room for calls. -/
theorem evalCall (limit : Limit) (free : Nat) : ∀ (handle : Int) {s t : State}, R s t →
    Alike R (evalCall limit free handle s) (evalCall limit free handle t) := by
  induction free with
  | zero =>
      intro handle s t hst
      have hdict := hR.dict_eq hst
      cases hw : s.dict.word? handle with
      | none =>
          rw [evalCall_of_word?_eq_none limit hw, evalCall_of_word?_eq_none limit (hdict ▸ hw)]
          exact .fail hst
      | some w =>
          rw [evalCall_zero limit hw, evalCall_zero limit (hdict ▸ hw)]
          exact .fail hst
  | succ free ih =>
      intro handle s t hst
      have hdict := hR.dict_eq hst
      cases hw : s.dict.word? handle with
      | none =>
          rw [evalCall_of_word?_eq_none limit hw, evalCall_of_word?_eq_none limit (hdict ▸ hw)]
          exact .fail hst
      | some w =>
          rw [evalCall_succ limit hw, evalCall_succ limit (hdict ▸ hw)]
          exact (hR.evalCode ih w.code hst).mapFault _

/-- With no word running, a word does the same in both states. -/
theorem executeWord (limit : Limit) (handle : Int) {m n : Machine} (hm : m.calls = .empty)
    (hn : n.calls = .empty) (h : R m.state n.state) :
    Alike (fun m' n' => m'.calls = .empty ∧ n'.calls = .empty ∧ R m'.state n'.state)
      (m.executeWord limit handle) (n.executeWord limit handle) := by
  rw [Machine.executeWord_of_idle hm, Machine.executeWord_of_idle hn]
  exact (hR.evalCall limit limit.room handle h).mapState fun hst => ⟨hm, hn, hst⟩

end Interchangeable

/-! ### Sources -/

/-- Every act that is performed on both of two machines related by `R` leaves them related, unless
the first one fails with a fault in `E`. -/
structure Lockstep (limit limit' : Limit) (E : Fault → Prop) (R : Machine → Machine → Prop) :
    Prop where
  /-- The mode is the same. -/
  mode_eq : ∀ {m n}, R m n → m.state.mode = n.state.mode
  /-- The dictionary is the same. -/
  dict_eq : ∀ {m n}, R m n → m.state.dict = n.state.dict
  /-- The unread input is the same. -/
  input_eq : ∀ {m n}, R m n → m.state.input = n.state.input
  /-- An act keeps the machines related. -/
  act : ∀ (a : Act) {m n}, R m n → AlikeUnless E R (a.perform limit m) (a.perform limit' n)

namespace Lockstep

variable {limit limit' : Limit} {E : Fault → Prop} {R : Machine → Machine → Prop} {m n : Machine}

section

variable (hR : Lockstep limit limit' E R)
include hR

/-- An act that cannot fail keeps the relation. -/
theorem of_act {a : Act} {m' n' : Machine} (h : R m n) (hm : a.perform limit m = .ok () m')
    (hn : a.perform limit' n = .ok () n') : R m' n' := by
  have hact := hR.act a h
  rw [hm, hn] at hact
  rcases hact with ⟨f, hf, -⟩ | hact
  · simp at hf
  · exact hact.state

theorem feed (h : R m n) (input : Option (List Token)) :
    R (m.withState (m.state.withInput input)) (n.withState (n.state.withInput input)) :=
  hR.of_act (a := .feed input) h rfl rfl

theorem runName (lookup : Dictionary → String → Option Nat) (name : String) (h : R m n) :
    AlikeUnless E R (m.runName limit lookup name) (n.runName limit' lookup name) := by
  have hdict := hR.dict_eq h
  cases hl : lookup m.state.dict name with
  | none =>
      have hl' : lookup n.state.dict name = none := hdict ▸ hl
      simp only [Machine.runName, hl, hl']
      exact .fail h
  | some k =>
      have hl' : lookup n.state.dict name = some k := hdict ▸ hl
      simp only [Machine.runName, hl, hl']
      exact hR.act (.word k) h

/-- While interpreting, the mode and the dictionary decide what a token does, and both machines have
the same. -/
theorem interpretToken (t : Token) (h : R m n) :
    AlikeUnless E R (m.interpretToken limit t) (n.interpretToken limit' t) := by
  -- An open definition is finished first, on both sides or on neither.
  have hfinish : R (if m.state.dict.active.isSome then m.withState m.state.finish else m)
      (if n.state.dict.active.isSome then n.withState n.state.finish else n) := by
    rw [← hR.dict_eq h]
    by_cases hactive : m.state.dict.active.isSome = true
    · rw [if_pos hactive, if_pos hactive]
      exact hR.of_act (a := .finish) h rfl rfl
    · rw [if_neg hactive, if_neg hactive]
      exact h
  cases t with
  | int k text => exact hR.act (.push [.int k]) hfinish
  | name name => exact hR.runName Dictionary.lookup name hfinish

/-- The word that a name is compiled to is found in a dictionary that both machines have. -/
theorem compileName (k : Nat) (name : String) (h : R m n) :
    AlikeUnless E R (m.compileName limit k name) (n.compileName limit' k name) := by
  simp only [Machine.compileName, ← hR.dict_eq h]
  cases hl : m.state.dict.lookupOutside name with
  | none => exact .fail h
  | some i =>
      cases hw : m.state.dict.entries[i]? with
      | none =>
          simp only [hw]
          exact .fail h
      | some w =>
          simp only [hw]
          by_cases himmediate : w.immediate = true
          · rw [if_pos himmediate, if_pos himmediate]
            have hrecord := hR.of_act (a := .record (.ranImmediate w.name
              ((m.state.dict.entries[k]?.map Word.name).getD ""))) h rfl rfl
            exact hR.act (.word i) hrecord
          · rw [if_neg himmediate, if_neg himmediate]
            exact hR.act (.extend k (.word w.ref)) h

theorem compileToken (k : Nat) (t : Token) (h : R m n) :
    AlikeUnless E R (m.compileToken limit k t) (n.compileToken limit' k t) := by
  cases t with
  | int i text => exact hR.act (.extend k (.literal (.int i))) h
  | name name =>
      simp only [Machine.compileToken]
      by_cases hname : name = SystemWord.semicolon.name
      · rw [if_pos hname, if_pos hname]
        exact hR.act .endDefinition h
      · rw [if_neg hname, if_neg hname]
        exact hR.compileName k name h

/-- One token keeps the relation. -/
theorem dispatch (t : Token) (h : R m n) :
    AlikeUnless E R (m.dispatch limit t) (n.dispatch limit' t) := by
  simp only [Machine.dispatch, ← hR.mode_eq h, ← hR.dict_eq h]
  cases m.state.mode with
  | interpret => exact hR.interpretToken t h
  | compile =>
      cases m.state.dict.active with
      | none => exact hR.act (.define t) h
      | some k => exact hR.compileToken k t h

/-- The loop over tokens: both machines take the same one, because they have the same input. -/
theorem consume (m : Machine) : ∀ {n : Machine}, R m n →
    AlikeUnless E R (m.consume limit) (n.consume limit') := by
  induction m using Machine.consume_induction limit with
  | done m hpending =>
      intro n h
      have hpending' : n.state.pending = 0 := by
        rw [State.pending, ← hR.input_eq h]
        exact hpending
      rw [Machine.consume_of_pending_eq_zero hpending, Machine.consume_of_pending_eq_zero hpending']
      exact .ok h
  | token m t ts hinput ih =>
      intro n h
      have hinput' : n.state.input = some (t :: ts) := (hR.input_eq h).symm.trans hinput
      rw [Machine.consume_cons hinput, Machine.consume_cons hinput']
      refine (hR.dispatch t (hR.feed h (some ts))).bind (fun hst => hst) ?_
      intro _ m' n' hdispatch hst
      exact ih m' hdispatch hst

/-- A list of tokens keeps the relation, because the two machines have the same input to return to.
-/
theorem interpret (final : Bool) (tokens : List Token) (h : R m n) :
    AlikeUnless E R (m.interpret limit final tokens) (n.interpret limit' final tokens) := by
  have hconsume := hR.consume _ (hR.feed h (some tokens))
  simp only [Machine.interpret, ← hR.input_eq h]
  rcases hconsume with ⟨f, hf, hE⟩ | hconsume
  · generalize (m.withState (m.state.withInput (some tokens))).consume limit = x at hf ⊢
    cases x with
    | ok a m' => simp at hf
    | fail g m' => exact .inl ⟨f, hf, hE⟩
  · generalize (m.withState (m.state.withInput (some tokens))).consume limit = x,
      (n.withState (n.state.withInput (some tokens))).consume limit' = y at hconsume ⊢
    cases hconsume with
    | fail hst => exact .fail (hR.feed hst _)
    | @ok _ m' n' hst =>
        have hname : m'.openName? = n'.openName? := by
          rw [Machine.openName?, hR.dict_eq hst]
          rfl
        simp only [← hR.mode_eq hst, ← hname]
        by_cases hopen : (final && m'.state.mode = .compile) = true
        · rw [if_pos hopen, if_pos hopen]
          exact .fail (hR.feed hst _)
        · rw [if_neg hopen, if_neg hopen]
          exact .ok (hR.feed hst _)

/-- The same source does the same on both machines. -/
theorem execute (final : Bool) (source : String) (h : R m n) :
    AlikeUnless E R (m.execute limit final source) (n.execute limit' final source) :=
  hR.interpret final (tokenize source) h

end

end Lockstep

end ThreadedForth
