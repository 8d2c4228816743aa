import Mathlib
import ThreadedForth.Proofs.StackEffect
/-!
# ThreadedForth.Proofs.Failure

What a primitive that fails leaves on the stack.

Nothing is undone when a primitive fails, so the order in which it looks at values and takes them
decides what is left. Words that look before they take leave the stack as it was. All others take
their operands one by one from the top, and put nothing back before they are done. So what is left is
the lower part of the stack, and what is missing are operands (`Outcome.Spares`). This is carried
through a sequence of checks by one lemma (`Outcome.Spares.bind`), and each operand that is taken
costs one value more (`Stack.spares_popInt_bind`).

For the operators on two integers that order is written down in full (`DataWord.Operates`): there is
one rule for each way in which the two operands can be unfit, and one for operands that are fit. The
rules agree with each other and with what is computed (`DataWord.operates_iff`). For quotient and
remainder they do not say how these are computed, but which numbers they are.
-/

namespace ThreadedForth

/-- If the operation failed, at most `n` values were taken from the top of the stack `s`, and nothing
was put in their place; `view` is the stack of a state. -/
def Outcome.Spares {σ α : Type} (view : σ → Stack) (n : Nat) (s : Stack) (x : Outcome σ α) : Prop :=
  ∀ f t, x = .fail f t → ∃ taken, s = taken ++ view t ∧ taken.length ≤ n

namespace Outcome.Spares

variable {σ τ α β : Type} {view : σ → Stack} {n : Nat} {s : Stack} {x : Outcome σ α}

theorem ok {a : α} {t : σ} : Spares view n s (.ok a t) := by
  intro f u h
  cases h

/-- A failure that leaves the stack alone takes nothing. -/
theorem fail {f : Fault} {t : σ} (h : view t = s) :
    Spares view n s (.fail f t : Outcome σ α) := by
  intro g u hg
  cases hg
  exact ⟨[], h.symm, Nat.zero_le n⟩

theorem of_ofText? {text : Option α} {t : σ} (h : view t = s) :
    Spares view n s (Outcome.ofText? text t) := by
  cases text with
  | some a => exact ok
  | none => exact fail h

/-- A sequence takes at most `n` values, if what follows a success takes no more than that of the
stack from before. -/
theorem bind {next : α → σ → Outcome σ β} (hx : Spares view n s x)
    (hnext : ∀ a t, x = .ok a t → Spares view n s (next a t)) : Spares view n s (x.bind next) := by
  cases x with
  | ok a t => exact hnext a t rfl
  | fail f t =>
      intro g u h
      cases h
      exact hx f t rfl

theorem map (hx : Spares view n s x) (g : α → β) : Spares view n s (x.map g) := by
  cases x with
  | ok a t => exact ok
  | fail f t =>
      intro e u h
      cases h
      exact hx f t rfl

/-- What an operation takes does not depend on where its stack is kept. -/
theorem mapState {g : σ → τ} {view' : τ → Stack} (hx : Spares view n s x)
    (hview : ∀ t, view' (g t) = view t) : Spares view' n s (x.mapState g) := by
  cases x with
  | ok a t => exact ok
  | fail f t =>
      intro e u h
      cases h
      rw [hview]
      exact hx f t rfl

/-- What is done below a value that was taken costs one value more. -/
theorem cons (hx : Spares view n s x) (v : Value) : Spares view (n + 1) (v :: s) x := by
  intro f t h
  obtain ⟨taken, hs, hlength⟩ := hx f t h
  exact ⟨v :: taken, by rw [hs]; rfl, Nat.succ_le_succ hlength⟩

/-- What takes few values takes no more than many. -/
theorem mono {k : Nat} (hx : Spares view n s x) (hle : n ≤ k) : Spares view k s x := by
  intro f t h
  obtain ⟨taken, hs, hlength⟩ := hx f t h
  exact ⟨taken, hs, Nat.le_trans hlength hle⟩

/-- If no value was taken the stack is what it was. -/
theorem eq_of_fail {f : Fault} {t : σ} (hx : Spares view 0 s x) (h : x = .fail f t) :
    view t = s := by
  obtain ⟨taken, hs, hlength⟩ := hx f t h
  obtain rfl : taken = [] := List.eq_nil_of_length_eq_zero (Nat.le_zero.1 hlength)
  exact hs.symm

end Outcome.Spares

open Outcome (Spares)

/-! ### Data words -/

/-- How many values a failure of the word costs at most. -/
def DataWord.losses : DataWord → Nat
  | add | sub | mul | div | mod => 2
  | dot | negate | emit => 1
  | dup | drop | swap | copyOver | rot | depth | dotS | cr | space => 0

namespace Stack

variable {α : Type} {n : Nat} {s : Stack}

/-- An operation that finds too few values takes none. -/
theorem spares_underflow (op : Option String) :
    Spares id n s (underflow op s : Outcome Stack α) :=
  .fail rfl

/-- An operand that is taken is lost if anything fails from then on. -/
theorem spares_popInt_bind {next : Int → Stack → Outcome Stack α} (op : Option String)
    (hnext : ∀ k t, Spares id n t (next k t)) : Spares id (n + 1) s ((popInt op s).bind next) := by
  cases s with
  | nil => exact .fail rfl
  | cons v s =>
      rcases popInt_cons_cases op v s with ⟨k, -, hpop⟩ | ⟨-, got, -, hpop⟩
      · rw [hpop]
        exact .cons (hnext k s) v
      · rw [hpop]
        exact .cons (.fail rfl) v

/-- An operator loses at most its two operands. -/
theorem spares_binary (op : String) (f : Int → Int → Int) : Spares id 2 s (binary op f s) :=
  spares_popInt_bind _ fun _ _ => spares_popInt_bind _ fun _ _ => .ok

/-- A division by zero is noticed after both operands were taken. -/
theorem spares_division (op : String) (f : Int → Int → Int) : Spares id 2 s (division op f s) := by
  refine spares_popInt_bind _ fun b t => spares_popInt_bind _ fun a u => ?_
  by_cases hb : b = 0
  · rw [if_pos hb]
    exact .fail rfl
  · rw [if_neg hb]
    exact .ok

theorem spares_negate : Spares id 1 s (negate s) :=
  spares_popInt_bind _ fun _ _ => .ok

/-- What cannot be printed is lost. -/
theorem spares_printTop : Spares id 1 s (printTop s) := by
  cases s with
  | nil => exact .fail rfl
  | cons v s => exact .cons (.map (.of_ofText? rfl) _) v

/-- A number that is no character is lost. -/
theorem spares_printChar : Spares id 1 s (printChar s) := by
  refine spares_popInt_bind _ fun code t => ?_
  cases charOf? code with
  | some c => exact .ok
  | none =>
      cases Numeral.written? code with
      | some shown => exact .fail rfl
      | none => exact .fail rfl

end Stack

open Stack in
/-- A data word that fails has taken no more than its losses. -/
theorem DataWord.spares_run (w : DataWord) (s : Stack) : Spares id w.losses s (w.run s) := by
  cases w with
  | dup =>
      match s with
      | [] => exact spares_underflow _
      | a :: s => exact .ok
  | drop =>
      match s with
      | [] => exact spares_underflow _
      | a :: s => exact .ok
  | swap =>
      match s with
      | [] | [_] => exact spares_underflow _
      | b :: a :: s => exact .ok
  | copyOver =>
      match s with
      | [] | [_] => exact spares_underflow _
      | b :: a :: s => exact .ok
  | rot =>
      match s with
      | [] | [_] | [_, _] => exact spares_underflow _
      | c :: b :: a :: s => exact .ok
  | depth => exact .ok
  | dot => exact spares_printTop
  | dotS => exact .map (.of_ofText? rfl) _
  | add => exact spares_binary _ _
  | sub => exact spares_binary _ _
  | mul => exact spares_binary _ _
  | div => exact spares_division _ _
  | mod => exact spares_division _ _
  | negate => exact spares_negate
  | cr => exact .ok
  | emit => exact spares_printChar
  | space => exact .ok

/-! ### All primitives -/

namespace State

/-- A failing `'` has not come to the stack yet. -/
theorem spares_tick (s : State) : Spares State.stack 0 s.stack s.tick := by
  have hread : Spares State.stack 0 s.stack (s.readName "'") := by
    unfold readName
    split
    · exact .ok
    · exact .fail rfl
  refine hread.bind fun name t ht => ?_
  have hstack : t.stack = s.stack := by
    unfold readName at ht
    split at ht <;> cases ht
    rfl
  have hresolve : Spares State.stack 0 s.stack (t.resolve name) := by
    unfold resolve
    split
    · exact .ok
    · exact .fail hstack
  exact hresolve.bind fun _ _ _ => .ok

end State

/-- A system word that calls no word takes nothing from the stack. -/
theorem SystemWord.spares_run {w : SystemWord} (hw : w ≠ .execute) (s : State) :
    Spares State.stack 0 s.stack (w.run s) := by
  by_cases htick : w = .tick
  · subst htick
    exact s.spares_tick.map _
  · intro f t h
    have hstack := (supplied_run htick hw s).1
    rw [h] at hstack
    exact ⟨[], hstack.symm, Nat.le_refl 0⟩

/-- How many values a failure of the primitive costs at most, unless it calls a word. -/
def Primitive.losses : Primitive → Nat
  | data w => w.losses
  | system _ | inert _ => 0

/-- A primitive that fails has taken some of its operands, and put nothing in their place. -/
theorem Primitive.spares_run {p : Primitive} (hp : p ≠ .system .execute) (s : State) :
    Spares State.stack p.losses s.stack (p.run s) := by
  cases p with
  | inert name => exact .ok
  | system w => exact SystemWord.spares_run (fun h => hp (h ▸ rfl)) s
  | data w =>
      have hrun := w.spares_run s.stack
      simp only [run, DataWord.runOn]
      cases hw : w.run s.stack with
      | ok text stack => exact .ok
      | fail f stack =>
          rw [hw] at hrun
          intro e t h
          cases h
          exact hrun f stack rfl

/-- Words that look before they take, and words that take nothing. -/
def Primitive.sparing : List Primitive :=
  [.data .dup, .data .drop, .data .swap, .data .copyOver, .data .rot, .data .dotS, .system .tick,
   .system .see, .system .words, .system .colon, .system .semicolon]

/-- The primitives that look before they take lose nothing. -/
theorem Primitive.losses_of_sparing {p : Primitive} (hp : p ∈ sparing) : p.losses = 0 := by
  revert p
  decide

/-- No primitive loses more than two values. -/
theorem Primitive.losses_le (p : Primitive) : p.losses ≤ 2 := by
  cases p with
  | data w => cases w <;> decide
  | system w => exact Nat.zero_le 2
  | inert name => exact Nat.zero_le 2

namespace Machine

variable {limit : Limit} {m : Machine}

/-- A primitive that calls no word is no more than its effect on the state. -/
theorem runPrimitive_of_ne_execute {p : Primitive} (hp : p ≠ .system .execute) :
    m.runPrimitive limit p = ((p.run m.state).mapState m.withState).map fun _ => () := by
  unfold runPrimitive
  cases hrun : p.run m.state with
  | fail f s => rfl
  | ok wanted s =>
      cases wanted with
      | none => rfl
      | some r => exact absurd (Primitive.run_eq_ok_some hrun).1 hp

/-- Run by a machine, a primitive takes what it takes by itself. -/
theorem spares_runPrimitive {p : Primitive} (hp : p ≠ .system .execute) :
    Spares (fun m : Machine => m.state.stack) p.losses m.state.stack (m.runPrimitive limit p) := by
  have hstate : Spares (fun m : Machine => m.state.stack) p.losses m.state.stack
      ((p.run m.state).mapState m.withState) := .mapState (p.spares_run hp m.state) fun _ => rfl
  rw [runPrimitive_of_ne_execute hp]
  exact hstate.map _

end Machine

/-! ### Operators -/

namespace DataWord

/-- The operators on two integers. -/
def operators : List DataWord := [add, sub, mul, div, mod]

/-- The operator has the result `c` for the integers `a` and `b`. The remainder lies between zero and
the divisor, on the side of zero where the divisor is. -/
inductive Gives : DataWord → Int → Int → Int → Prop where
  /-- The sum. -/
  | add (a b : Int) : Gives add a b (a + b)
  /-- The difference. -/
  | sub (a b : Int) : Gives sub a b (a - b)
  /-- The product. -/
  | mul (a b : Int) : Gives mul a b (a * b)
  /-- The quotient, beside some remainder. -/
  | div {a b q r : Int} : a = b * q + r → 0 ≤ r ∧ r < b ∨ b < r ∧ r ≤ 0 → Gives div a b q
  /-- The remainder, beside some quotient. -/
  | mod {a b q r : Int} : a = b * q + r → 0 ≤ r ∧ r < b ∨ b < r ∧ r ≤ 0 → Gives mod a b r

/-- What an operator on two integers makes of a stack. Values are taken before they are looked at,
the top one first. -/
inductive Operates (w : DataWord) : Stack → Outcome Stack String → Prop where
  /-- There is no value. -/
  | missing : w.Operates [] (.fail (.raise (.underflow (some w.name))) [])
  /-- The top value is no integer. -/
  | top {v : Value} {got : String} {s : Stack} : v.isInt = false → v.describe? = some got →
      w.Operates (v :: s) (.fail (.raise (.integerExpected (some w.name) got)) s)
  /-- The top value is an integer, and the only value. -/
  | alone (b : Int) : w.Operates [.int b] (.fail (.raise (.underflow (some w.name))) [])
  /-- The top value is an integer, and the one below is none. -/
  | second {b : Int} {v : Value} {got : String} {s : Stack} : v.isInt = false →
      v.describe? = some got →
      w.Operates (.int b :: v :: s) (.fail (.raise (.integerExpected (some w.name) got)) s)
  /-- The divisor is zero. -/
  | zero {a : Int} {s : Stack} : w = div ∨ w = mod →
      w.Operates (.int 0 :: .int a :: s) (.fail (.raise (.zeroDivisor w.name)) s)
  /-- Both operands are fit. -/
  | both {a b c : Int} {s : Stack} : w.Gives a b c →
      w.Operates (.int b :: .int a :: s) (.ok "" (.int c :: s))

end DataWord

/-- Quotient and remainder as they are computed, and as they are described. -/
theorem fdiv_fmod_eq_iff {a b q r : Int} (hb : b ≠ 0) :
    a.fdiv b = q ∧ a.fmod b = r ↔ a = b * q + r ∧ (0 ≤ r ∧ r < b ∨ b < r ∧ r ≤ 0) := by
  rcases Int.lt_or_gt_of_ne hb with hneg | hpos
  · rw [Int.fdiv_fmod_unique' hneg]
    omega
  · rw [Int.fdiv_fmod_unique hpos]
    omega

namespace DataWord

variable {w : DataWord} {a b c c' : Int} {s : Stack} {x y : Outcome Stack String}

/-- No remainder lies between zero and zero, so the divisor is not zero. -/
theorem Gives.ne_zero (hw : w = DataWord.div ∨ w = DataWord.mod) (h : w.Gives a b c) : b ≠ 0 := by
  cases h with
  | div _ hr => omega
  | mod _ hr => omega
  | _ => simp at hw

/-- An operator gives one number at most. -/
theorem Gives.eq (h : w.Gives a b c) (h' : w.Gives a b c') : c = c' := by
  cases h with
  | add => cases h'; rfl
  | sub => cases h'; rfl
  | mul => cases h'; rfl
  | div ha hr =>
      cases h' with
      | div ha' hr' =>
          have hb : b ≠ 0 := by omega
          exact ((fdiv_fmod_eq_iff hb).2 ⟨ha, hr⟩).1.symm.trans
            ((fdiv_fmod_eq_iff hb).2 ⟨ha', hr'⟩).1
  | mod ha hr =>
      cases h' with
      | mod ha' hr' =>
          have hb : b ≠ 0 := by omega
          exact ((fdiv_fmod_eq_iff hb).2 ⟨ha, hr⟩).2.symm.trans
            ((fdiv_fmod_eq_iff hb).2 ⟨ha', hr'⟩).2

/-- Floored division gives the quotient that is asked for. -/
theorem gives_div (hb : b ≠ 0) : div.Gives a b (a.fdiv b) := by
  obtain ⟨ha, hr⟩ := (fdiv_fmod_eq_iff hb).1 ⟨rfl, rfl⟩
  exact .div ha hr

/-- The remainder of floored division is the one that is asked for. -/
theorem gives_mod (hb : b ≠ 0) : mod.Gives a b (a.fmod b) := by
  obtain ⟨ha, hr⟩ := (fdiv_fmod_eq_iff hb).1 ⟨rfl, rfl⟩
  exact .mod ha hr

/-- The rules do not contradict each other. -/
theorem Operates.eq (hx : w.Operates s x) (hy : w.Operates s y) : x = y := by
  cases hx with
  | missing => cases hy; rfl
  | top hv hgot =>
      cases hy with
      | top _ hgot' =>
          obtain rfl := Option.some.inj (hgot.symm.trans hgot')
          rfl
      | _ => cases hv
  | alone b =>
      cases hy with
      | alone => rfl
      | top hv => cases hv
  | second hv hgot =>
      cases hy with
      | second _ hgot' =>
          obtain rfl := Option.some.inj (hgot.symm.trans hgot')
          rfl
      | top hv' => cases hv'
      | _ => cases hv
  | zero hw =>
      cases hy with
      | zero => rfl
      | both hc => exact absurd rfl (hc.ne_zero hw)
      | top hv => cases hv
      | second hv => cases hv
  | both hc =>
      cases hy with
      | both hc' => rw [hc.eq hc']
      | zero hw => exact absurd rfl (hc.ne_zero hw)
      | top hv => cases hv
      | second hv => cases hv

/-- Operands are taken as the rules say, so all that is left to show of an operator is what it does
with two integers. -/
theorem operates_popInt {next : Int → Int → Stack → Outcome Stack String}
    (hnext : ∀ b a s, w.Operates (.int b :: .int a :: s) (next b a s)) (s : Stack) :
    w.Operates s ((Stack.popInt (some w.name) s).bind fun b s =>
      (Stack.popInt (some w.name) s).bind fun a s => next b a s) := by
  cases s with
  | nil => exact .missing
  | cons v s =>
      rcases Stack.popInt_cons_cases (some w.name) v s with ⟨b, rfl, hpop⟩ | ⟨hv, got, hgot, hpop⟩
      · rw [hpop, Outcome.bind_ok]
        cases s with
        | nil => exact .alone b
        | cons v s =>
            rcases Stack.popInt_cons_cases (some w.name) v s with
              ⟨a, rfl, hpop'⟩ | ⟨hv, got, hgot, hpop'⟩
            · rw [hpop']
              exact hnext b a s
            · rw [hpop']
              exact .second hv hgot
      · rw [hpop]
        exact .top hv hgot

/-- Quotient and remainder follow the rules, a zero divisor included. -/
theorem operates_division (hw : w = div ∨ w = mod) {f : Int → Int → Int}
    (hgives : ∀ {a b}, b ≠ 0 → w.Gives a b (f a b)) (s : Stack) :
    w.Operates s (Stack.division w.name f s) := by
  refine operates_popInt (fun b a t => ?_) s
  by_cases hb : b = 0
  · subst hb
    exact .zero hw
  · rw [if_neg hb]
    exact .both (hgives hb)

/-- Every operator follows the rules. -/
theorem operates_run (hw : w ∈ operators) (s : Stack) : w.Operates s (w.run s) := by
  cases w with
  | add => exact operates_popInt (fun b a _ => .both (.add a b)) s
  | sub => exact operates_popInt (fun b a _ => .both (.sub a b)) s
  | mul => exact operates_popInt (fun b a _ => .both (.mul a b)) s
  | div => exact operates_division (.inl rfl) gives_div s
  | mod => exact operates_division (.inr rfl) gives_mod s
  | _ => simp [operators] at hw

/-- The rules say exactly what an operator does. -/
theorem operates_iff (hw : w ∈ operators) : w.Operates s x ↔ x = w.run s := by
  constructor
  · intro h
    exact h.eq (operates_run hw s)
  · rintro rfl
    exact operates_run hw s

end DataWord

theorem State.write_empty (s : State) : s.write "" = s := by
  simp [write]

/-- An operator writes nothing. -/
theorem DataWord.Operates.text_eq {w : DataWord} {s t : Stack} {text : String}
    (h : w.Operates s (.ok text t)) : text = "" := by
  cases h
  rfl

namespace Machine

variable {limit : Limit} {m : Machine}

/-- A machine that runs an operator changes its stack alone. -/
theorem runPrimitive_operator {w : DataWord} (hw : w ∈ DataWord.operators) :
    m.runPrimitive limit (.data w) = ((w.run m.state.stack).map fun _ => ()).mapState fun stack =>
      m.withState (m.state.withStack stack) := by
  have hoperates := DataWord.operates_run hw m.state.stack
  rw [runPrimitive_of_ne_execute (by simp), Primitive.run, DataWord.runOn]
  cases hrun : w.run m.state.stack with
  | fail f stack => rfl
  | ok text stack =>
      rw [hrun] at hoperates
      obtain rfl := hoperates.text_eq
      simp only [State.write_empty]
      rfl

/-- A primitive that fails never corrupts the stack. Unless it is `execute`, which calls a word, what
it leaves is the lower part of the stack, short of two values at most; and it leaves the whole stack
if it is one of those that look before they take. What an operator on two integers does is, exactly,
what the rules say for the stack it finds: of a failure as of a success, which values are taken and
which fault or which result there is. It does nothing else to the machine. -/
theorem failure_spares_stack (limit : Limit) (m : Machine) :
    (∀ p : Primitive, p ≠ .system .execute → ∀ f m', m.runPrimitive limit p = .fail f m' →
      (∃ taken, m.state.stack = taken ++ m'.state.stack ∧ taken.length ≤ 2) ∧
      (p ∈ Primitive.sparing → m'.state.stack = m.state.stack)) ∧
    ∀ w ∈ DataWord.operators, ∃ x, (∀ y, w.Operates m.state.stack y ↔ y = x) ∧
      m.runPrimitive limit (.data w) =
        (x.map fun _ => ()).mapState fun stack => m.withState (m.state.withStack stack) := by
  refine ⟨fun p hp f m' hfail => ?_, fun w hw => ?_⟩
  · have hspares : Spares (fun m : Machine => m.state.stack) p.losses m.state.stack
        (m.runPrimitive limit p) := spares_runPrimitive hp
    refine ⟨hspares.mono p.losses_le f m' hfail, fun hsparing => ?_⟩
    rw [Primitive.losses_of_sparing hsparing] at hspares
    exact hspares.eq_of_fail hfail
  · exact ⟨w.run m.state.stack, fun y => DataWord.operates_iff hw, runPrimitive_operator hw⟩

/-- A division takes a zero and the truth value below it, and fails because of the latter; `see`
takes a name that means nothing from the input, and nothing from the stack. -/
theorem failure_spares_stack_mixed :
    ∃ m m₁ m₂ : Machine, m.state.stack = [.int 0, .bool true, .text "base"] ∧
      DataWord.div ∈ DataWord.operators ∧ Primitive.data .div ≠ .system .execute ∧
      m.runPrimitive (.atMost 9) (.data .div) =
        .fail (.raise (.integerExpected (some "/") "True")) m₁ ∧
      m₁.state.stack = [.text "base"] ∧
      (∃ taken, m.state.stack = taken ++ m₁.state.stack ∧ taken.length ≤ 2) ∧
      Primitive.system .see ≠ .system .execute ∧ Primitive.system .see ∈ Primitive.sparing ∧
      m.runPrimitive (.atMost 9) (.system .see) = .fail (.raise (.unknown "nonsense")) m₂ ∧
      m₂.state.stack = [.int 0, .bool true, .text "base"] := by
  obtain ⟨m, hstack, hsee⟩ : ∃ m : Machine,
      m.state.stack = [.int 0, .bool true, .text "base"] ∧
      (m.runPrimitive (.atMost 9) (.system .see)).fault? = some (.raise (.unknown "nonsense")) :=
    ⟨initial.withState { State.initial with
      stack := [.int 0, .bool true, .text "base"], input := some [.name "nonsense"] }, rfl, by cbv⟩
  obtain ⟨m₂, hm₂⟩ := Outcome.exists_eq_fail hsee
  obtain ⟨hspares, hexact⟩ := failure_spares_stack (.atMost 9) m
  obtain ⟨x, hx, hdiv⟩ := hexact .div (by decide)
  have hsecond : DataWord.div.Operates m.state.stack
      (.fail (.raise (.integerExpected (some "/") "True")) [.text "base"]) := by
    rw [hstack]
    exact .second rfl rfl
  rw [← (hx _).1 hsecond] at hdiv
  exact ⟨m, _, m₂, hstack, by decide, by decide, hdiv, rfl, (hspares _ (by decide) _ _ hdiv).1,
    by decide, by decide, hm₂, ((hspares _ (by decide) _ _ hm₂).2 (by decide)).trans hstack⟩

end Machine

end ThreadedForth
