import Mathlib
import ThreadedForth.Proofs.Nesting
/-!
# ThreadedForth.Proofs.StackEffect

How many values a word takes and leaves is written in its code.

Every primitive has an effect that its documentation states as a comment, such as `( a b -- b a )`.
Effects compose along code (`StackEffect.andThen`): what the second part takes comes from what the
first one leaves, and the rest of it from below. In a coherent dictionary code refers to older words
only, so every word has one effect (`Dictionary.Coherent.exists_affects`).

On a stack of integers the effect is exact (`StackEffect.Met`). A word that comes to its end had as
many values to take as its effect says, and has left as many; so with fewer values it always fails.
If it had them and fails all the same, then not for want of a value, nor for the type of one, unless
`emit` met a number that is no character code. All of this is carried along code by one lemma about
sequencing (`StackEffect.Met.bind`), with which primitives that take their operands one by one are
dealt with as well.

`'` and `execute` are left out: the one leaves a value that is no integer, and the effect of the
other depends on such a value.
-/

namespace ThreadedForth

/-- How many values are taken from the stack, and how many are left in their place. -/
structure StackEffect where
  /-- The number of values taken. -/
  takes : Nat
  /-- The number of values left. -/
  leaves : Nat
  deriving DecidableEq, Repr, Inhabited

/-- One effect after the other. -/
def StackEffect.andThen (e₁ e₂ : StackEffect) : StackEffect where
  takes := e₁.takes + (e₂.takes - e₁.leaves)
  leaves := e₂.leaves + (e₁.leaves - e₂.takes)

/-! ### The effects of words -/

/-- The effect of a data word. -/
def DataWord.effect : DataWord → StackEffect
  | dup => ⟨1, 2⟩
  | drop => ⟨1, 0⟩
  | swap => ⟨2, 2⟩
  | copyOver => ⟨2, 3⟩
  | rot => ⟨3, 3⟩
  | depth => ⟨0, 1⟩
  | dot => ⟨1, 0⟩
  | add | sub | mul | div | mod => ⟨2, 1⟩
  | negate => ⟨1, 1⟩
  | emit => ⟨1, 0⟩
  | dotS | cr | space => ⟨0, 0⟩

/-- The effect of a primitive. That of `execute` does not count the word it calls. -/
def Primitive.effect : Primitive → StackEffect
  | data w => w.effect
  | system .tick => ⟨0, 1⟩
  | system .execute => ⟨1, 0⟩
  | system _ | inert _ => ⟨0, 0⟩

/-- The effect of a cell, if each word has the effect that `of` says. -/
def cellEffect (of : WordRef → StackEffect) : Cell → StackEffect
  | .literal _ => ⟨0, 1⟩
  | .primitive p => p.effect
  | .word r => of r

/-- The effect of cells that are run one after another. -/
def codeEffect (of : WordRef → StackEffect) : List Cell → StackEffect
  | [] => ⟨0, 0⟩
  | c :: code => (cellEffect of c).andThen (codeEffect of code)

/-- The word at the handle has the effect. -/
inductive Dictionary.Affects (d : Dictionary) : Int → StackEffect → Prop where
  /-- The effect of a word is that of its code. -/
  | word {h : Int} {w : Word} {of : WordRef → StackEffect} : d.word? h = some w →
      (∀ r, .word r ∈ w.code → d.Affects r.handle (of r)) → d.Affects h (codeEffect of w.code)

/-- The effect of code depends on the effects of the words it calls, and of no others. -/
theorem codeEffect_congr {of of' : WordRef → StackEffect} {code : List Cell}
    (h : ∀ r, .word r ∈ code → of r = of' r) : codeEffect of code = codeEffect of' code := by
  induction code with
  | nil => rfl
  | cons c code ih =>
      have hcell : cellEffect of c = cellEffect of' c := by
        cases c with
        | word r => exact h r List.mem_cons_self
        | _ => rfl
      rw [codeEffect, codeEffect, hcell, ih fun r hr => h r (List.mem_cons_of_mem c hr)]

namespace Dictionary

variable {d : Dictionary} {mode : Mode} {h : Int} {e e' : StackEffect}

/-- A word has no more than one effect. -/
theorem Affects.eq (he : d.Affects h e) : ∀ {e'}, d.Affects h e' → e = e' := by
  induction he with
  | @word h w of hw _ ih =>
      intro e' he'
      cases he' with
      | @word _ w' of' hw' hcalls' =>
          obtain rfl : w = w' := Option.some.inj (hw.symm.trans hw')
          exact codeEffect_congr fun r hr => ih r hr (hcalls' r hr)

/-- The words that the code of an entry calls are older, so their effects are found first. -/
theorem Coherent.exists_effects (hd : d.Coherent mode) (i : Nat) : ∀ {w : Word},
    d.entries[i]? = some w →
      ∃ of : WordRef → StackEffect, ∀ r, .word r ∈ w.code → d.Affects r.handle (of r) := by
  induction i using Nat.strongRecOn with
  | ind i ih =>
      intro w hw
      have hcalls : ∀ r, .word r ∈ w.code → ∃ e, d.Affects r.handle e := by
        intro r hr
        obtain ⟨j, v, hv, rfl, hlt, -⟩ := hd.admits hw _ hr
        obtain ⟨of, hof⟩ := ih j hlt hv.1
        exact ⟨_, .word hv.word?_eq hof⟩
      choose! of hof using hcalls
      exact ⟨of, hof⟩

/-- What a handle points at is the entry at some index. -/
theorem exists_entries_of_word? {w : Word} (hw : d.word? h = some w) :
    ∃ i : Nat, d.entries[i]? = some w := by
  obtain ⟨i, -, hi⟩ := Option.bind_eq_some_iff.1 hw
  exact ⟨i, hi⟩

/-- Calls go down in a coherent dictionary, so every word has an effect. -/
theorem Coherent.exists_affects (hd : d.Coherent mode) {w : Word} (hw : d.word? h = some w) :
    ∃ e, d.Affects h e := by
  obtain ⟨i, hi⟩ := exists_entries_of_word? hw
  obtain ⟨of, hof⟩ := hd.exists_effects i hi
  exact ⟨_, .word hw hof⟩

end Dictionary

/-! ### What it is to have an effect -/

/-- All values are integers. -/
def Stack.Ints (s : Stack) : Prop := ∀ v ∈ s, v.isInt = true

/-- The fault does not say that a value was missing, or that one had the wrong type, except that
`emit` met a number that is no character. -/
def Fault.Supplied : Fault → Prop
  | problem p _ => p.kind ≠ .stackUnderflow ∧
      (p.kind = .typeMismatch → ∃ code, p = .notACharacter code)
  | _ => True

/-- Whether a fault is supplied does not depend on the words it comes out of. -/
theorem Fault.Supplied.within {f : Fault} (h : f.Supplied) (names : List String) :
    (f.within names).Supplied := by
  cases f <;> exact h

/-- An operation on a stack of `n` integers ended as its effect says; `view` is the stack of a
state. It succeeds only if there were enough values, and if there were enough it fails with a
supplied fault only. -/
inductive StackEffect.Met {σ α : Type} (view : σ → Stack) (n : Nat) (e : StackEffect) :
    Outcome σ α → Prop where
  /-- It succeeded. -/
  | ok {a : α} {s : σ} : e.takes ≤ n → (view s).Ints →
      (view s).length = n - e.takes + e.leaves → Met view n e (.ok a s)
  /-- It failed. -/
  | fail {f : Fault} {s : σ} : (e.takes ≤ n → f.Supplied) → Met view n e (.fail f s)

namespace StackEffect.Met

variable {σ τ α β : Type} {view : σ → Stack} {n : Nat} {e e₁ e₂ : StackEffect} {x : Outcome σ α}

/-- One operation after the other has one effect after the other. -/
theorem bind {next : α → σ → Outcome σ β} (hx : e₁.Met view n x)
    (hnext : ∀ a s, x = .ok a s → (view s).Ints → e₂.Met view (view s).length (next a s)) :
    (e₁.andThen e₂).Met view n (x.bind next) := by
  cases hx with
  | fail hf => exact .fail fun hle => hf (Nat.le_of_add_right_le hle)
  | @ok a s hle hints hlength =>
      have hmet := hnext a s rfl hints
      rw [Outcome.bind_ok]
      generalize next a s = y at hmet ⊢
      cases hmet with
      | ok hle₂ hints₂ hlength₂ => refine .ok ?_ hints₂ ?_ <;> simp only [andThen] <;> omega
      | fail hf =>
          refine .fail fun hle' => hf ?_
          simp only [andThen] at hle'
          omega

theorem map (hx : e.Met view n x) (g : α → β) : e.Met view n (x.map g) := by
  cases hx with
  | ok hle hints hlength => exact .ok hle hints hlength
  | fail hf => exact .fail hf

/-- An effect does not depend on where the stack is kept. -/
theorem mapState {g : σ → τ} {view' : τ → Stack} (hx : e.Met view n x)
    (hview : ∀ s, view' (g s) = view s) : e.Met view' n (x.mapState g) := by
  cases hx with
  | ok hle hints hlength => exact .ok hle (by rwa [hview]) (by rwa [hview])
  | fail hf => exact .fail hf

theorem within (hx : e.Met view n x) (names : List String) :
    e.Met view n (x.mapFault (.within names)) := by
  cases hx with
  | ok hle hints hlength => exact .ok hle hints hlength
  | fail hf => exact .fail fun hle => (hf hle).within names

end StackEffect.Met

/-! ### Data words -/

namespace Stack

variable {s t : Stack}

theorem Ints.tail {v : Value} (h : Ints (v :: s)) : s.Ints :=
  fun u hu => h u (List.mem_cons_of_mem v hu)

theorem Ints.cons (h : s.Ints) {v : Value} (hv : v.isInt = true) : Ints (v :: s) := by
  intro u hu
  rcases List.mem_cons.1 hu with rfl | hu
  · exact hv
  · exact h u hu

/-- Too few values are an underflow, as the effect says. -/
theorem met_underflow {α : Type} {e : StackEffect} (op : Option String) (h : s.length < e.takes) :
    e.Met id s.length (underflow op s : Outcome Stack α) :=
  .fail fun hle => absurd h (Nat.not_lt.2 hle)

theorem met_push (hs : s.Ints) (text : String) (n : Int) :
    StackEffect.Met id s.length ⟨0, 1⟩ (.ok text (.int n :: s)) :=
  .ok (Nat.zero_le _) (hs.cons rfl) rfl

theorem met_keep {α : Type} (hs : s.Ints) (a : α) :
    StackEffect.Met id s.length ⟨0, 0⟩ (.ok a s) :=
  .ok (Nat.zero_le _) hs rfl

theorem met_ofText? {α : Type} (hs : s.Ints) (text : Option α) :
    StackEffect.Met id s.length ⟨0, 0⟩ (Outcome.ofText? text s) := by
  cases text with
  | some a => exact met_keep hs a
  | none => exact .fail fun _ => trivial

/-- Taking a value takes one. -/
theorem met_pop (op : Option String) (hs : s.Ints) :
    StackEffect.Met id s.length ⟨1, 0⟩ (pop op s) := by
  cases s with
  | nil => exact met_underflow op Nat.one_pos
  | cons v s => exact .ok (Nat.succ_le_succ (Nat.zero_le _)) hs.tail rfl

/-- What goes on after an integer was taken takes one value less. -/
theorem met_popInt_bind {α : Type} {takes leaves : Nat} {next : Int → Stack → Outcome Stack α}
    (op : Option String) (hs : s.Ints)
    (hnext : ∀ n t, Ints t → StackEffect.Met id t.length ⟨takes, leaves⟩ (next n t)) :
    StackEffect.Met id s.length ⟨takes + 1, leaves⟩ ((popInt op s).bind next) := by
  have hpop : StackEffect.Met id s.length ⟨1, 0⟩ (popInt op s) := by
    cases s with
    | nil => exact met_underflow op Nat.one_pos
    | cons v s =>
        rcases popInt_cons_cases op v s with ⟨n, -, hpop⟩ | ⟨hv, -⟩
        · rw [hpop]
          exact .ok (Nat.succ_le_succ (Nat.zero_le _)) hs.tail rfl
        · rw [hs v List.mem_cons_self] at hv
          cases hv
  have hmet := hpop.bind fun n t _ ht => hnext n t ht
  simpa [StackEffect.andThen, Nat.add_comm] using hmet

/-- The rearranging words only move and copy values. -/
theorem met_rearrange {e : StackEffect} {n : Nat} (hs : s.Ints) (hle : e.takes ≤ n)
    (ht : ∀ v ∈ t, v ∈ s) (hlength : t.length = n - e.takes + e.leaves) :
    e.Met id n (.ok "" t : Outcome Stack String) :=
  .ok hle (fun v hv => hs v (ht v hv)) hlength

/-! The other words take their operands one by one, so their effects are put together. -/

/-- An operator takes two integers and leaves one. -/
theorem met_binary (op : String) (f : Int → Int → Int) (hs : s.Ints) :
    StackEffect.Met id s.length ⟨2, 1⟩ (binary op f s) :=
  met_popInt_bind _ hs fun _ _ ht => met_popInt_bind _ ht fun _ _ hu => met_push hu "" _

/-- A division by zero is no lack of operands. -/
theorem met_division (op : String) (f : Int → Int → Int) (hs : s.Ints) :
    StackEffect.Met id s.length ⟨2, 1⟩ (division op f s) := by
  refine met_popInt_bind _ hs fun b t ht => met_popInt_bind _ ht fun a u hu => ?_
  by_cases hb : b = 0
  · rw [if_pos hb]
    exact .fail fun _ => ⟨nofun, nofun⟩
  · rw [if_neg hb]
    exact met_push hu "" _

theorem met_negate (hs : s.Ints) : StackEffect.Met id s.length ⟨1, 1⟩ (negate s) :=
  met_popInt_bind _ hs fun _ _ ht => met_push ht "" _

/-- Printing takes a value; that its digits are too many is no lack of operands. -/
theorem met_printTop (hs : s.Ints) : StackEffect.Met id s.length ⟨1, 0⟩ (printTop s) :=
  (met_pop _ hs).bind fun v _ _ ht => (met_ofText? ht v.describe?).map _

/-- That a number is no character is the one wrong type an integer can have. -/
theorem met_printChar (hs : s.Ints) : StackEffect.Met id s.length ⟨1, 0⟩ (printChar s) := by
  refine met_popInt_bind _ hs fun code t ht => ?_
  cases charOf? code with
  | some c => exact met_keep ht _
  | none =>
      cases Numeral.written? code with
      | some shown => exact .fail fun _ => ⟨nofun, fun _ => ⟨shown, rfl⟩⟩
      | none => exact .fail fun _ => trivial

end Stack

open Stack in
/-- On integers every data word has the effect that it is said to have. -/
theorem DataWord.met_run (w : DataWord) {s : Stack} (hs : s.Ints) :
    w.effect.Met id s.length (w.run s) := by
  cases w with
  | dup =>
      match s with
      | [] => exact met_underflow _ (by decide)
      | a :: s => exact met_rearrange hs (by simp [effect]) (by simp) (by simp [effect])
  | drop =>
      match s with
      | [] => exact met_underflow _ (by decide)
      | a :: s => exact met_rearrange hs (by simp [effect]) (by simp +contextual) (by simp [effect])
  | swap =>
      match s with
      | [] | [_] => exact met_underflow _ (by simp [effect])
      | b :: a :: s =>
          exact met_rearrange hs (by simp [effect]) (by simp +contextual) (by simp [effect])
  | copyOver =>
      match s with
      | [] | [_] => exact met_underflow _ (by simp [effect])
      | b :: a :: s => exact met_rearrange hs (by simp [effect]) (by simp) (by simp [effect])
  | rot =>
      match s with
      | [] | [_] | [_, _] => exact met_underflow _ (by simp [effect])
      | c :: b :: a :: s =>
          exact met_rearrange hs (by simp [effect]) (by simp; grind) (by simp [effect])
  | depth => exact met_push hs "" _
  | dot => exact met_printTop hs
  | dotS => exact (met_ofText? hs s.summary?).map _
  | add => exact met_binary _ _ hs
  | sub => exact met_binary _ _ hs
  | mul => exact met_binary _ _ hs
  | div => exact met_division _ _ hs
  | mod => exact met_division _ _ hs
  | negate => exact met_negate hs
  | cr => exact met_keep hs _
  | emit => exact met_printChar hs
  | space => exact met_keep hs _

/-! ### System words -/

/-- A problem of another kind. -/
theorem Fault.supplied_raise {p : Problem} (kind : Problem.Kind) (hp : p.kind = kind)
    (hkind : kind ≠ .stackUnderflow ∧ kind ≠ .typeMismatch) : (raise p).Supplied := by
  rw [← hp] at hkind
  exact ⟨hkind.1, fun h => absurd h hkind.2⟩

/-- The system words that have nothing to do with references leave the stack alone. -/
theorem SystemWord.supplied_run {w : SystemWord} (htick : w ≠ .tick) (hexecute : w ≠ .execute)
    (s : State) : (w.run s).Ensures (fun t => t.stack = s.stack) Fault.Supplied := by
  cases w with
  | colon =>
      refine .map _ ?_
      rw [State.beginDefinition]
      split
      · exact .fail rfl (Fault.supplied_raise .modeError rfl (by decide))
      · exact .ok rfl
  | semicolon =>
      refine .map _ ?_
      rw [State.endDefinition]
      split
      · exact .fail rfl (Fault.supplied_raise .modeError rfl (by decide))
      · exact .ok s.stack_finish
  | tick => exact absurd rfl htick
  | execute => exact absurd rfl hexecute
  | words => exact .ok rfl
  | see =>
      have hread : (s.readName "see").Ensures (fun t => t.stack = s.stack) Fault.Supplied := by
        rw [State.readName]
        split
        · exact .ok rfl
        · exact .fail rfl (Fault.supplied_raise .unknownWord rfl (by decide))
      refine .map _ (hread.bind fun name t _ ht => ?_)
      have hresolve : (t.resolve name).Ensures (fun u => u.stack = s.stack) Fault.Supplied := by
        rw [State.resolve]
        split
        · exact .ok ht
        · exact .fail ht (Fault.supplied_raise .unknownWord rfl (by decide))
      exact hresolve.bind fun w u _ hu => .bind (.of_ofText? hu trivial) fun _ _ _ hv => .ok hv

/-- On integers a primitive has the effect that it is said to have, unless it is about
references. -/
theorem Primitive.met_run {p : Primitive} (htick : p ≠ .system .tick)
    (hexecute : p ≠ .system .execute) {s : State} (hs : s.stack.Ints) :
    p.effect.Met State.stack s.stack.length (p.run s) := by
  cases p with
  | inert name => exact .ok (Nat.zero_le _) hs rfl
  | data w =>
      have hrun := w.met_run hs
      rw [run, DataWord.runOn]
      generalize w.run s.stack = x at hrun ⊢
      cases hrun with
      | ok hle hints hlength => exact .ok hle hints hlength
      | fail hf => exact .fail hf
  | system w =>
      have heffect : (system w).effect = ⟨0, 0⟩ := by
        cases w <;> first | rfl | exact absurd rfl htick | exact absurd rfl hexecute
      have hrun := SystemWord.supplied_run (fun h => htick (h ▸ rfl)) (fun h => hexecute (h ▸ rfl)) s
      rw [heffect, run]
      cases hw : w.run s with
      | ok wanted t =>
          rw [hw] at hrun
          have hstack : t.stack = s.stack := hrun.1
          exact .ok (Nat.zero_le _) (hstack ▸ hs) (by rw [hstack]; rfl)
      | fail f t =>
          rw [hw] at hrun
          exact .fail fun _ => hrun.2 f rfl

/-! ### Code -/

/-- The cell pushes no value but an integer, and is neither `'` nor `execute`. -/
def Cell.Static : Cell → Prop
  | .literal v => v.isInt = true
  | .primitive p => p ≠ .system .tick ∧ p ≠ .system .execute
  | .word _ => True

section

variable {d : Dictionary} {call : Int → State → Outcome State Unit} {of : WordRef → StackEffect}

/-- A cell has its effect, if the words it calls have theirs. -/
theorem met_evalCell {c : Cell} (hc : c.Static)
    (hcall : ∀ r, c = .word r → ∀ s : State, d.Finishes s.dict → s.stack.Ints →
      (of r).Met State.stack s.stack.length (call r.handle s))
    {s : State} (hd : d.Finishes s.dict) (hs : s.stack.Ints) :
    (cellEffect of c).Met State.stack s.stack.length (evalCell call c s) := by
  cases c with
  | literal v => exact .ok (Nat.zero_le _) (hs.cons hc) rfl
  | word r => exact hcall r rfl s hd hs
  | primitive p =>
      have hrun := Primitive.met_run hc.1 hc.2 hs
      rw [evalCell, cellEffect]
      cases hp : p.run s with
      | fail f t =>
          rw [hp] at hrun
          cases hrun with
          | fail hf => exact .fail hf
      | ok wanted t =>
          cases wanted with
          | some r => exact absurd (Primitive.run_eq_ok_some hp).1 hc.2
          | none =>
              rw [hp] at hrun
              cases hrun with
              | ok hle hints hlength => exact .ok hle hints hlength

/-- Code has the effects of its cells one after another, by induction on the code. -/
theorem met_evalCode (hkeep : ∀ h (s : State), s.dict.Finishes (call h s).state.dict)
    (code : List Cell) (hcode : ∀ c ∈ code, c.Static)
    (hcall : ∀ r, .word r ∈ code → ∀ s : State, d.Finishes s.dict → s.stack.Ints →
      (of r).Met State.stack s.stack.length (call r.handle s)) :
    ∀ {s : State}, d.Finishes s.dict → s.stack.Ints →
      (codeEffect of code).Met State.stack s.stack.length (evalCode call code s) := by
  induction code with
  | nil => exact fun _ hs => .ok (Nat.zero_le _) hs rfl
  | cons c code ih =>
      intro s hd hs
      have hcell := met_evalCell (hcode c List.mem_cons_self)
        (fun r hr => hcall r (hr ▸ List.mem_cons_self)) hd hs
      have hfinishes := effectBound_finishes.evalCell hkeep c s
      refine hcell.bind fun _ t ht hints => ?_
      rw [ht] at hfinishes
      exact ih (fun b hb => hcode b (List.mem_cons_of_mem c hb))
        (fun r hr => hcall r (List.mem_cons_of_mem c hr)) (hd.trans hfinishes) hints

end

/-- A refused call is no lack of operands. -/
theorem Limit.supplied_refusal (limit : Limit) (name : String) :
    (limit.refusal name).Supplied := by
  cases limit with
  | atMost n => exact Fault.supplied_raise .stackOverflow rfl (by decide)
  | blank => trivial

/-- The code of an entry pushes integers only. -/
theorem Dictionary.Coherent.static {d : Dictionary} {mode : Mode} (hd : d.Coherent mode) {h : Int}
    {w : Word} (hw : d.word? h = some w) (htick : ¬ d.Uses h (.system .tick))
    (hexecute : ¬ d.Uses h (.system .execute)) : ∀ c ∈ w.code, c.Static := by
  intro c hc
  cases c with
  | literal v =>
      obtain ⟨i, hi⟩ := exists_entries_of_word? hw
      obtain ⟨n, rfl⟩ := hd.admits hi _ hc
      rfl
  | word r => trivial
  | primitive p =>
      constructor
      · rintro rfl
        exact htick (.primitive hw hc)
      · rintro rfl
        exact hexecute (.primitive hw hc)

/-- On integers a word has its effect, whatever the limit on calls. -/
theorem met_evalCall {d : Dictionary} {mode : Mode} (hd : d.Coherent mode) (limit : Limit) {h : Int}
    {e : StackEffect} (he : d.Affects h e) : ¬ d.Uses h (.system .tick) →
      ¬ d.Uses h (.system .execute) → ∀ (free : Nat) (s : State), d.Finishes s.dict →
      s.stack.Ints → e.Met State.stack s.stack.length (evalCall limit free h s) := by
  induction he with
  | @word h w of hw _ ih =>
      intro htick hexecute free s hfinishes hs
      obtain ⟨w', hw', -, hcode⟩ := hfinishes.word?_eq_some hw
      cases free with
      | zero =>
          rw [evalCall_zero limit hw']
          exact .fail fun _ => limit.supplied_refusal w'.name
      | succ free =>
          rw [evalCall_succ limit hw', hcode]
          refine .within (met_evalCode (effectBound_finishes.evalCall limit free) w.code
            (hd.static hw htick hexecute) (fun r hr t => ?_) hfinishes hs) _
          exact ih r hr (fun hr' => htick (.word hw hr hr'))
            (fun hr' => hexecute (.word hw hr hr')) free t

namespace Session

/-- Static stack effects are exact. In a session driven by source, let an entry use neither `'` nor
`execute`. Then it has one effect. Run on integers of which there are enough, it never fails for want
of a value, nor for the type of one unless `emit` is given no character code; and if it succeeds it
leaves integers, as many as the effect says. Run on too few, it fails. -/
theorem stack_effect_exact {limit : Limit} {m : Machine} {h : Int} {w : Word}
    (hm : Reaches limit m) (hw : m.state.dict.word? h = some w)
    (htick : ¬ m.state.dict.Uses h (.system .tick))
    (hexecute : ¬ m.state.dict.Uses h (.system .execute)) :
    ∃ e, (∀ e', m.state.dict.Affects h e' ↔ e' = e) ∧
      ∀ (stack : Stack) (x : Outcome Machine Unit), stack.Ints →
        x = (m.withState (m.state.withStack stack)).executeWord limit h →
        (e.takes ≤ stack.length →
          (∀ p trace, x.fault? = some (.problem p trace) → p.kind ≠ .stackUnderflow ∧
            (p.kind = .typeMismatch → ∃ code, p = .notACharacter code)) ∧
          (x.fault? = none → x.state.state.stack.Ints ∧
            x.state.state.stack.length = stack.length - e.takes + e.leaves)) ∧
        (stack.length < e.takes → ∃ f, x.fault? = some f) := by
  have hd := (Machine.Sound.of_reaches hm).state.coherent
  obtain ⟨e, he⟩ := hd.exists_affects hw
  refine ⟨e, fun e' => ⟨fun he' => he'.eq he, ?_⟩, fun stack x hints hx => ?_⟩
  · rintro rfl
    exact he
  have hidle : (m.withState (m.state.withStack stack)).calls = .empty :=
    (Machine.calls_of_reaches hm : m.calls = .empty)
  have hmet : e.Met (fun m => m.state.stack) stack.length x := by
    rw [hx, Machine.executeWord_of_idle hidle]
    exact (met_evalCall hd limit he htick hexecute limit.room (m.state.withStack stack) (.refl _)
      hints).mapState fun _ => rfl
  cases hmet with
  | ok hle hints' hlength =>
      exact ⟨fun _ => ⟨nofun, fun _ => ⟨hints', hlength⟩⟩, fun hlt => absurd hle (Nat.not_le.2 hlt)⟩
  | @fail f _ hf =>
      refine ⟨fun hle => ⟨fun p trace hfault => ?_, nofun⟩, fun _ => ⟨f, rfl⟩⟩
      obtain rfl : f = .problem p trace := Option.some.inj hfault
      exact hf hle

/-- `+ +` takes three integers and leaves one; two are not enough. -/
theorem stack_effect_exact_sum :
    ∃ (m : Machine) (h : Int) (w : Word), Reaches (.atMost 9) m ∧ m.state.dict.word? h = some w ∧
      ¬ m.state.dict.Uses h (.system .tick) ∧ ¬ m.state.dict.Uses h (.system .execute) ∧
      m.state.dict.Affects h ⟨3, 1⟩ ∧
      ((m.withState (m.state.withStack [.int 3, .int 4, .int 5])).executeWord (.atMost 9) h
        ).state.state.stack.length = 1 ∧
      ∃ f, ((m.withState (m.state.withStack [.int 3, .int 4])).executeWord (.atMost 9) h).fault? =
        some f := by
  obtain ⟨m, hm, hsum, hadd, hends⟩ : ∃ m : Machine, Reaches (.atMost 9) m ∧
      m.state.dict.word? 23 =
        some ⟨"sum", 23, false, false, true, [.word ⟨14, "+"⟩, .word ⟨14, "+"⟩]⟩ ∧
      m.state.dict.word? 14 = some ⟨"+", 14, false, false, true, [.primitive (.data .add)]⟩ ∧
      ((m.withState (m.state.withStack [.int 3, .int 4, .int 5])).executeWord (.atMost 9) 23
        ).fault? = none :=
    ⟨_, .perform (.execute ": sum + + ;" true) trivial .fresh, by cbv, by cbv, by cbv⟩
  have htick : ¬ m.state.dict.Uses 23 (.system .tick) := by
    simp [Dictionary.uses_iff hsum, Dictionary.uses_iff hadd, Cell.Uses]
  have hexecute : ¬ m.state.dict.Uses 23 (.system .execute) := by
    simp [Dictionary.uses_iff hsum, Dictionary.uses_iff hadd, Cell.Uses]
  have haffects : m.state.dict.Affects 23
      (codeEffect (fun _ => ⟨2, 1⟩) [.word ⟨14, "+"⟩, .word ⟨14, "+"⟩]) := by
    refine .word hsum fun r hr => ?_
    obtain rfl : r = ⟨14, "+"⟩ := by simpa using hr
    show m.state.dict.Affects 14 (codeEffect (fun _ => ⟨0, 0⟩) [.primitive (.data .add)])
    exact .word hadd (by simp)
  obtain ⟨e, he, hrun⟩ := stack_effect_exact hm hsum htick hexecute
  obtain rfl : ⟨3, 1⟩ = e := (he _).1 haffects
  have hthree : Stack.Ints [.int 3, .int 4, .int 5] := by simp [Stack.Ints, Value.isInt]
  have htwo : Stack.Ints [.int 3, .int 4] := by simp [Stack.Ints, Value.isInt]
  exact ⟨m, 23, _, hm, hsum, htick, hexecute, haffects,
    (((hrun _ _ hthree rfl).1 (by decide)).2 hends).2, (hrun _ _ htwo rfl).2 (by decide)⟩

end Session

end ThreadedForth
