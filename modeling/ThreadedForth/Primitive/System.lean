import ThreadedForth.Primitive.Data
import ThreadedForth.State
/-!
# ThreadedForth.Primitive.System

What the system words do, and with them every primitive. `execute` cannot run its word here,
because that takes a frame of the machine: the result of a primitive is the reference it wants
called, if any, and the machine does the rest.
-/

namespace ThreadedForth

namespace State

/-- `:` begins a definition, unless one is open. -/
def beginDefinition (s : State) : Outcome State Unit :=
  match s.dict.activeWord? with
  | some w => .fail (.raise (.alreadyDefining (Text.quoted w.name))) s
  | none => .ok () { s with mode := .compile }

/-- `;` ends a definition, if the interpreter is compiling. -/
def endDefinition (s : State) : Outcome State Unit :=
  match s.mode with
  | .interpret => .fail (.raise .notDefining) s
  | .compile => .ok () { s.finish with mode := .interpret }

/-- `'` reads a name and pushes a reference to its word. -/
def tick (s : State) : Outcome State Unit :=
  (s.readName "'").bind fun name s =>
  (s.resolve name).bind fun w s => .ok () (s.push (.ref w.ref))

/-- `see` reads a name and writes the source form of its word on a line. -/
def see (s : State) : Outcome State Unit :=
  (s.readName "see").bind fun name s =>
  (s.resolve name).bind fun w s =>
  (Outcome.ofText? w.source? s).bind fun text s => .ok () (s.write (text ++ "\n"))

/-- `words` writes the visible names on a line. -/
def listWords (s : State) : Outcome State Unit :=
  .ok () (s.write (String.intercalate " " s.dict.names ++ "\n"))

/-- Take the word reference on top of the stack; a value that is none is taken all the same. -/
def popRef (s : State) : Outcome State WordRef :=
  match s.stack with
  | [] => .fail (.raise (.underflow (some "execute"))) s
  | .ref r :: rest => .ok r (s.withStack rest)
  | v :: rest =>
    (Outcome.ofText? v.describe? (s.withStack rest)).bind fun got s =>
      .fail (.raise (.referenceExpected got)) s

end State

/-- Run a system word; the result is the reference it wants called. -/
def SystemWord.run : SystemWord → State → Outcome State (Option WordRef)
  | colon, s => s.beginDefinition.map fun _ => none
  | semicolon, s => s.endDefinition.map fun _ => none
  | tick, s => s.tick.map fun _ => none
  | execute, s => s.popRef.map some
  | words, s => s.listWords.map fun _ => none
  | see, s => s.see.map fun _ => none

/-- Run a data word on the stack of a state. -/
def DataWord.runOn (w : DataWord) (s : State) : Outcome State (Option WordRef) :=
  match w.run s.stack with
  | .ok text stack => .ok none ((s.withStack stack).write text)
  | .fail f stack => .fail f (s.withStack stack)

/-- Run a primitive; the result is the reference it wants called. -/
def Primitive.run : Primitive → State → Outcome State (Option WordRef)
  | data w, s => w.runOn s
  | system w, s => w.run s
  | inert _, s => .ok none s

/-! ### Primitives never add input -/

/-- If neither of two operations adds to the input, one after the other does not. -/
theorem State.pending_bind {α β : Type} {s : State} {x : Outcome State α}
    {next : α → State → Outcome State β} (hx : x.state.pending ≤ s.pending)
    (hnext : ∀ a t, t.pending ≤ s.pending → (next a t).state.pending ≤ s.pending) :
    (x.bind next).state.pending ≤ s.pending := by
  cases x with
  | ok a t => exact hnext a t hx
  | fail f t => exact hx

theorem State.pending_beginDefinition (s : State) :
    s.beginDefinition.state.pending ≤ s.pending := by
  unfold beginDefinition
  split <;> exact Nat.le_refl _

theorem State.pending_endDefinition (s : State) :
    s.endDefinition.state.pending ≤ s.pending := by
  unfold endDefinition
  split
  · exact Nat.le_refl _
  · exact Nat.le_of_eq (pending_finish s)

theorem State.pending_tick (s : State) : s.tick.state.pending ≤ s.pending := by
  refine pending_bind (pending_readName _ s) fun name t ht => ?_
  refine Nat.le_trans (pending_bind (s := t) ?_ ?_) ht
  · simp
  · intro w u hu
    exact hu

theorem State.pending_see (s : State) : s.see.state.pending ≤ s.pending := by
  refine pending_bind (pending_readName _ s) fun name t ht => ?_
  refine Nat.le_trans (pending_bind (s := t) ?_ ?_) ht
  · simp
  · intro w u hu
    cases w.source? with
    | none => exact hu
    | some text => exact hu

theorem State.pending_popRef (s : State) : s.popRef.state.pending ≤ s.pending := by
  unfold popRef
  split
  · exact Nat.le_refl _
  · exact Nat.le_refl _
  next v rest _ _ => cases v.describe? <;> exact Nat.le_refl _

theorem SystemWord.pending_run (w : SystemWord) (s : State) :
    (w.run s).state.pending ≤ s.pending := by
  cases w with
  | colon => simpa [run] using s.pending_beginDefinition
  | semicolon => simpa [run] using s.pending_endDefinition
  | tick => simpa [run] using s.pending_tick
  | execute => simpa [run] using s.pending_popRef
  | words => simp [run, State.listWords]
  | see => simpa [run] using s.pending_see

theorem DataWord.pending_runOn (w : DataWord) (s : State) :
    (w.runOn s).state.pending ≤ s.pending := by
  unfold runOn
  split <;> simp

/-- No primitive adds a token to the input; `'` and `see` take one. -/
theorem Primitive.pending_run (p : Primitive) (s : State) :
    (p.run s).state.pending ≤ s.pending := by
  cases p with
  | data w => exact w.pending_runOn s
  | system w => exact w.pending_run s
  | inert name => exact Nat.le_refl _

end ThreadedForth
