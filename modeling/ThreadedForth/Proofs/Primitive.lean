import ThreadedForth.Primitive.System
import ThreadedForth.Proofs.Outcome
/-!
# ThreadedForth.Proofs.Primitive

What every primitive keeps to, whatever state it runs on.

* It fails with a plain fault only (`Primitive.plain_run`): a problem that nobody has traced
  yet, or a number too long to be shown. In particular no primitive fails because of an index,
  none is refused a call, and none adds a cell to a word.
* A data word makes no references: what is on the stack after it was there before
  (`DataWord.run_ensures`).
* Only `execute` wants a word called, and the reference it wants was on top of the stack
  (`Primitive.run_eq_ok_some`).
-/

namespace ThreadedForth

open Fault (Plain plain_raise)

/-! ### The problems primitives raise -/

/-- A problem whose text opens with other words than the refusal of a finished word. -/
theorem plain_of_append {kind : Problem.Kind} {context : Option String} {first rest : String}
    (hkind : kind ≠ .stackOverflow) (hne : first ≠ "") (h : first.toList.head? ≠ some 'c') :
    (Fault.raise (.of kind context (some (first ++ rest)))).Plain := by
  refine plain_raise hkind fun heq => h ?_
  have hfirst : first.toList ≠ [] := fun hnil => hne (String.toList_inj.1 (by simpa using hnil))
  obtain ⟨c, cs, hcs⟩ := List.exists_cons_of_ne_nil hfirst
  have htext : (Problem.of kind context (some (first ++ rest))).text = first ++ rest := by
    simp [Problem.of, hne]
  have := congrArg (·.toList.head?) (htext.symm.trans heq)
  simpa [hcs] using this

/-- The usual text of a kind is the text of an underflow, and not the refusal of a finished word. -/
theorem plain_underflow (op : Option String) : (Fault.raise (.underflow op)).Plain :=
  plain_raise nofun (by simp [Problem.underflow, Problem.of, Problem.Kind.usualText])

theorem plain_integerExpected (op : Option String) (got : String) :
    (Fault.raise (.integerExpected op got)).Plain :=
  plain_of_append (by decide) (by decide) (by decide)

theorem plain_referenceExpected (got : String) : (Fault.raise (.referenceExpected got)).Plain :=
  plain_of_append (by decide) (by decide) (by decide)

theorem plain_notACharacter (code : String) : (Fault.raise (.notACharacter code)).Plain :=
  plain_of_append (by decide) (by decide) (by decide)

theorem plain_zeroDivisor (op : String) : (Fault.raise (.zeroDivisor op)).Plain :=
  plain_raise nofun (by simp [Problem.zeroDivisor, Problem.of, Problem.Kind.usualText])

theorem plain_unknown (name : String) : (Fault.raise (.unknown name)).Plain :=
  plain_raise nofun (by simp [Problem.unknown, Problem.of, Problem.Kind.usualText])

theorem plain_missingName (op : String) : (Fault.raise (.missingName op)).Plain :=
  plain_raise nofun (by simp [Problem.missingName, Problem.of])

theorem plain_alreadyDefining (name : String) : (Fault.raise (.alreadyDefining name)).Plain :=
  plain_of_append (by decide) (by decide) (by decide)

theorem plain_notDefining : (Fault.raise .notDefining).Plain := plain_raise (by decide) (by decide)

/-- A truncated definition is reported by the usual text of its kind, too. -/
theorem plain_truncated (name : Option String) : (Fault.raise (.truncated name)).Plain :=
  plain_raise nofun (by simp [Problem.truncated, Problem.of, Problem.Kind.usualText])

/-! ### Data words -/

namespace Stack

/-- Every word reference in `t` is one in `s`. -/
def RefsFrom (s t : Stack) : Prop := ∀ r, Value.ref r ∈ t → Value.ref r ∈ s

theorem RefsFrom.refl (s : Stack) : RefsFrom s s := fun _ h => h

/-- Where references come from composes, through any stack in between. -/
theorem RefsFrom.trans {s t u : Stack} (h₁ : RefsFrom s t) (h₂ : RefsFrom t u) : RefsFrom s u :=
  fun r hr => h₁ r (h₂ r hr)

theorem RefsFrom.tail (v : Value) (s : Stack) : RefsFrom (v :: s) s :=
  fun _ h => List.mem_cons_of_mem v h

/-- An integer on top adds no reference. -/
theorem RefsFrom.push_int {s t : Stack} (h : RefsFrom s t) (n : Int) :
    RefsFrom s (.int n :: t) := by
  intro r hr
  rcases List.mem_cons.1 hr with hr | hr
  · cases hr
  · exact h r hr

/-- What an operation on a stack promises: no new references and no fault but a plain one. -/
abbrev Tame {α : Type} (s : Stack) (x : Outcome Stack α) : Prop := x.Ensures (RefsFrom s) Plain

variable {α β : Type}

/-- One tame operation after another is tame. -/
theorem Tame.bind {s : Stack} {x : Outcome Stack α} {next : α → Stack → Outcome Stack β}
    (hx : Tame s x) (hnext : ∀ a t, Tame t (next a t)) : Tame s (x.bind next) :=
  Outcome.Ensures.bind hx fun a t _ ht => (hnext a t).mono (fun _ => ht.trans) fun _ h => h

theorem tame_underflow (op : Option String) (s : Stack) :
    Tame s (underflow op s : Outcome Stack α) :=
  .fail (.refl s) (plain_underflow op)

theorem tame_ofText? {text : Option α} (s : Stack) : Tame s (Outcome.ofText? text s) :=
  .of_ofText? (.refl s) trivial

theorem tame_pop (op : Option String) (s : Stack) : Tame s (pop op s) := by
  cases s with
  | nil => exact tame_underflow op []
  | cons v s => exact .ok (.tail v s)

/-- The top value is taken, whether it is an integer or not. -/
theorem popInt_cons_cases (op : Option String) (v : Value) (s : Stack) :
    (∃ n, v = .int n ∧ popInt op (v :: s) = .ok n s) ∨
      v.isInt = false ∧ ∃ got, v.describe? = some got ∧
        popInt op (v :: s) = .fail (.raise (.integerExpected op got)) s := by
  cases hv : v.isInt with
  | false => exact .inr ⟨rfl, popInt_of_not_int op hv s⟩
  | true =>
      obtain ⟨n, rfl⟩ : ∃ n, v = .int n := by
        cases v <;> simp_all [Value.isInt]
      exact .inl ⟨n, rfl, rfl⟩

/-- Taking an integer is tame: a value that is none is named in a plain problem. -/
theorem tame_popInt (op : Option String) (s : Stack) : Tame s (popInt op s) := by
  cases s with
  | nil => exact tame_underflow op []
  | cons v s =>
      rcases popInt_cons_cases op v s with ⟨n, -, hpop⟩ | ⟨-, got, -, hpop⟩
      · rw [hpop]
        exact .ok (.tail v s)
      · rw [hpop]
        exact .fail (.tail v s) (plain_integerExpected op got)

/-- An operator takes two integers and puts one back, so it makes no reference. -/
theorem tame_binary (op : String) (f : Int → Int → Int) (s : Stack) : Tame s (binary op f s) :=
  .bind (tame_popInt _ s) fun _ t =>
    .bind (tame_popInt _ t) fun _ u => .ok ((RefsFrom.refl u).push_int _)

/-- A division by zero is a plain problem, with both operands gone. -/
theorem tame_division (op : String) (f : Int → Int → Int) (s : Stack) :
    Tame s (division op f s) := by
  refine .bind (tame_popInt _ s) fun b t => .bind (tame_popInt _ t) fun a u => ?_
  split
  · exact .fail (.refl u) (plain_zeroDivisor op)
  · exact .ok ((RefsFrom.refl u).push_int _)

theorem tame_negate (s : Stack) : Tame s (negate s) :=
  .bind (tame_popInt _ s) fun _ t => .ok ((RefsFrom.refl t).push_int _)

theorem tame_printTop (s : Stack) : Tame s (printTop s) :=
  .bind (tame_pop _ s) fun _ t => (tame_ofText? t).map _

/-- A number that is no character is named in a plain problem, if it is not too long for that. -/
theorem tame_printChar (s : Stack) : Tame s (printChar s) := by
  refine .bind (tame_popInt _ s) fun code t => ?_
  split
  · exact .ok (.refl t)
  · exact .bind (tame_ofText? t) fun shown u => .fail (.refl u) (plain_notACharacter shown)

/-- The rearranging words only move and copy values. -/
theorem tame_rearrange {s t : Stack} (h : ∀ v, v ∈ t → v ∈ s) :
    Tame s (.ok "" t : Outcome Stack String) :=
  .ok fun r => h (.ref r)

end Stack

open Stack in
/-- No data word makes a reference, or fails with anything but a plain fault. -/
theorem DataWord.run_ensures (w : DataWord) (s : Stack) : Tame s (w.run s) := by
  cases w with
  | dup =>
      match s with
      | [] => exact tame_underflow _ _
      | a :: s => exact tame_rearrange (by simp)
  | drop =>
      match s with
      | [] => exact tame_underflow _ _
      | a :: s => exact tame_rearrange (by simp +contextual)
  | swap =>
      match s with
      | [] | [_] => exact tame_underflow _ _
      | b :: a :: s => exact tame_rearrange (by simp +contextual)
  | copyOver =>
      match s with
      | [] | [_] => exact tame_underflow _ _
      | b :: a :: s => exact tame_rearrange (by simp)
  | rot =>
      match s with
      | [] | [_] | [_, _] => exact tame_underflow _ _
      | c :: b :: a :: s => exact tame_rearrange (by simp; grind)
  | depth => exact .ok ((RefsFrom.refl s).push_int _)
  | dot => exact tame_printTop s
  | dotS => exact (tame_ofText? s).map _
  | add => exact tame_binary _ _ s
  | sub => exact tame_binary _ _ s
  | mul => exact tame_binary _ _ s
  | div => exact tame_division _ _ s
  | mod => exact tame_division _ _ s
  | negate => exact tame_negate s
  | cr => exact .ok (.refl s)
  | emit => exact tame_printChar s
  | space => exact .ok (.refl s)

/-! ### System words -/

namespace State

/-- Reading a name can only fail because none is left. -/
theorem readName_ensures (op : String) (s : State) :
    (s.readName op).Ensures (fun _ => True) Plain := by
  unfold readName
  split
  · exact .ok trivial
  · exact .fail trivial (plain_missingName op)

/-- A look-up can only fail because the name is unknown. -/
theorem resolve_ensures (name : String) (s : State) :
    (s.resolve name).Ensures (fun _ => True) Plain := by
  unfold resolve
  split
  · exact .ok trivial
  · exact .fail trivial (plain_unknown name)

/-- A definition can only fail to begin because another one is open. -/
theorem beginDefinition_ensures (s : State) :
    s.beginDefinition.Ensures (fun _ => True) Plain := by
  unfold beginDefinition
  split
  · exact .fail trivial (plain_alreadyDefining _)
  · exact .ok trivial

theorem endDefinition_ensures (s : State) : s.endDefinition.Ensures (fun _ => True) Plain := by
  unfold endDefinition
  split
  · exact .fail trivial plain_notDefining
  · exact .ok trivial

/-- What `execute` takes is the reference on top of the stack. -/
theorem popRef_eq_ok {s t : State} {r : WordRef} (h : s.popRef = .ok r t) :
    ∃ rest, s.stack = .ref r :: rest ∧ t = s.withStack rest := by
  unfold popRef at h
  split at h
  · simp at h
  next r' rest hs =>
    cases h
    exact ⟨rest, hs, rfl⟩
  next v rest _ _ =>
    cases hv : v.describe? with
    | none => simp [hv] at h
    | some got => simp [hv] at h

/-- Taking a reference takes one value, or fails by a plain fault. -/
theorem popRef_ensures (s : State) :
    s.popRef.Ensures (fun t => t = s ∨ ∃ v rest, s.stack = v :: rest ∧ t = s.withStack rest)
      Plain := by
  unfold popRef
  split
  · exact .fail (.inl rfl) (plain_underflow _)
  next r rest hs => exact .ok (.inr ⟨_, rest, hs, rfl⟩)
  next v rest _ hs =>
    refine .bind (.of_ofText? (.inr ⟨v, rest, hs, rfl⟩) trivial) fun got t _ ht => ?_
    exact .fail ht (plain_referenceExpected got)

end State

/-- The system words fail by plain faults only. -/
theorem SystemWord.plain_run (w : SystemWord) (s : State) :
    (w.run s).Ensures (fun _ => True) Plain := by
  cases w with
  | colon => exact .map _ s.beginDefinition_ensures
  | semicolon => exact .map _ s.endDefinition_ensures
  | tick =>
      refine .map _ (.bind (s.readName_ensures _) fun name t _ _ => ?_)
      exact .bind (t.resolve_ensures name) fun w u _ _ => .ok trivial
  | execute => exact .map _ (s.popRef_ensures.mono (fun _ _ => trivial) fun _ h => h)
  | words => exact .ok trivial
  | see =>
      refine .map _ (.bind (s.readName_ensures _) fun name t _ _ => ?_)
      refine .bind (t.resolve_ensures name) fun w u _ _ => ?_
      exact .bind (.of_ofText? trivial trivial) fun _ _ _ _ => .ok trivial

/-! ### All primitives -/

/-- The one way a data word touches a state. -/
theorem DataWord.runOn_ensures (w : DataWord) (s : State) :
    (w.runOn s).Ensures (fun t => ∃ stack text, Stack.RefsFrom s.stack stack ∧
      t = (s.withStack stack).write text) Plain := by
  have h := w.run_ensures s.stack
  unfold runOn
  cases hw : w.run s.stack with
  | ok text stack =>
      rw [hw] at h
      exact .ok ⟨stack, text, h.1, rfl⟩
  | fail f stack =>
      rw [hw] at h
      exact .fail ⟨stack, "", h.1, by simp [State.write, State.withStack]⟩ (h.2 f rfl)

/-- A primitive fails by a plain fault only. -/
theorem Primitive.plain_run (p : Primitive) (s : State) :
    (p.run s).Ensures (fun _ => True) Plain := by
  cases p with
  | data w => exact (w.runOn_ensures s).mono (fun _ _ => trivial) fun _ h => h
  | system w => exact w.plain_run s
  | inert name => exact .ok trivial

/-- Only `execute` wants a word called. -/
theorem Primitive.run_eq_ok_some {p : Primitive} {s t : State} {r : WordRef}
    (h : p.run s = .ok (some r) t) : p = .system .execute ∧ s.popRef = .ok r t := by
  cases p with
  | data w =>
      cases hw : w.run s.stack <;> simp [run, DataWord.runOn, hw] at h
  | inert name => simp [run] at h
  | system w =>
      cases w with
      | execute =>
          refine ⟨rfl, ?_⟩
          cases hp : s.popRef with
          | ok r' t' => simp_all [run, SystemWord.run]
          | fail f t' => simp [run, SystemWord.run, hp] at h
      | colon => exact absurd h (by cases hx : s.beginDefinition <;> simp [run, SystemWord.run, hx])
      | semicolon =>
          exact absurd h (by cases hx : s.endDefinition <;> simp [run, SystemWord.run, hx])
      | tick => exact absurd h (by cases hx : s.tick <;> simp [run, SystemWord.run, hx])
      | words => exact absurd h (by cases hx : s.listWords <;> simp [run, SystemWord.run, hx])
      | see => exact absurd h (by cases hx : s.see <;> simp [run, SystemWord.run, hx])

end ThreadedForth
