import Mathlib
import ThreadedForth.Proofs.Lockstep
import ThreadedForth.Proofs.Soundness
/-!
# ThreadedForth.Proofs.Logging

What was logged makes no difference to what is done.

The log is written and never read. So two interpreters that differ in their logs alone do the same,
and log the same events from then on. If their logs show the same at a level, they go on to show the
same (`State.SameShown`), because an event adds the same line, or none, to both.
-/

namespace ThreadedForth

/-! ### The log as it is shown -/

namespace Event

variable {threshold : Level}

/-- An event comes after what was logged before it. -/
theorem render_cons (threshold : Level) (e : Event) (events : List Event) :
    render threshold (e :: events) = render threshold events ++ render threshold [e] := by
  simp only [render, List.reverse_cons, List.filter_append, List.map_append, String.join_append,
    List.reverse_nil, List.nil_append]

/-- An event that is not important enough is not shown. -/
theorem render_cons_of_lt {e : Event} (h : e.level.rank < threshold.rank) (events : List Event) :
    render threshold (e :: events) = render threshold events := by
  have hhidden : ¬ threshold.rank ≤ e.level.rank := Nat.not_le.2 h
  simp [render, hhidden]

end Event

open Outcome (Alike AlikeUnless)

namespace Outcome

variable {σ τ ρ π α : Type} {R : ρ → π → Prop}

/-- A text is shown in both states, or is too long to be shown in either. -/
theorem Alike.of_ofText? (text : Option α) {r : ρ} {p : π} (h : R r p) :
    Alike R (ofText? text r) (ofText? text p) := by
  cases text with
  | some a => exact .ok h
  | none => exact .fail h

/-- The same operation, seen as part of two larger states. -/
theorem Alike.of_mapState {f : σ → ρ} {g : σ → π} (h : ∀ s, R (f s) (g s)) (x : Outcome σ α) :
    Alike R (x.mapState f) (x.mapState g) := by
  cases x with
  | ok a s => exact .ok (h s)
  | fail e s => exact .fail (h s)

/-- An exception that never applies is none. -/
theorem AlikeUnless.alike {S : σ → τ → Prop} {x : Outcome σ α} {y : Outcome τ α}
    (h : AlikeUnless (fun _ => False) S x y) : Alike S x y := by
  rcases h with ⟨f, -, hf⟩ | h
  · exact absurd hf id
  · exact h

end Outcome

/-! ### States -/

/-- The states differ in their logs alone, and not in what is shown of these. -/
def State.SameShown (threshold : Level) (s t : State) : Prop :=
  ∃ log, t = { s with log } ∧ Event.render threshold s.log = Event.render threshold log

namespace State.SameShown

variable {threshold : Level} {s t : State}

/-- The same event adds the same line to both logs, or to neither. -/
theorem record (h : s.SameShown threshold t) (e : Event) :
    (s.record e).SameShown threshold (t.record e) := by
  obtain ⟨log, rfl, hlog⟩ := h
  refine ⟨e :: log, rfl, ?_⟩
  rw [State.record, Event.render_cons, hlog, ← Event.render_cons]

/-- An event that is not shown changes nothing. -/
theorem record_left (s : State) (e : Event) (he : e.level.rank < threshold.rank) :
    (s.record e).SameShown threshold s :=
  ⟨s.log, rfl, Event.render_cons_of_lt he s.log⟩

/-- A change that does not touch the log. -/
theorem update (h : s.SameShown threshold t) (f : State → State)
    (hf : ∀ (s : State) log, f { s with log } = { f s with log } ∧ (f s).log = s.log) :
    (f s).SameShown threshold (f t) := by
  obtain ⟨log, rfl, hlog⟩ := h
  refine ⟨log, (hf s log).1, ?_⟩
  rw [(hf s log).2, hlog]

/-- What does not depend on the log is the same. -/
theorem congr {α : Type} (h : s.SameShown threshold t) (g : State → α)
    (hg : ∀ (s : State) log, g { s with log } = g s) : g s = g t := by
  obtain ⟨log, rfl, -⟩ := h
  exact (hg s log).symm

theorem withStack (h : s.SameShown threshold t) (stack : Stack) :
    (s.withStack stack).SameShown threshold (t.withStack stack) :=
  h.update (State.withStack · stack) fun _ _ => ⟨rfl, rfl⟩

theorem withDict (h : s.SameShown threshold t) (d : Dictionary) :
    (s.withDict d).SameShown threshold (t.withDict d) :=
  h.update (State.withDict · d) fun _ _ => ⟨rfl, rfl⟩

theorem withInput (h : s.SameShown threshold t) (input : Option (List Token)) :
    (s.withInput input).SameShown threshold (t.withInput input) :=
  h.update (State.withInput · input) fun _ _ => ⟨rfl, rfl⟩

theorem withMode (h : s.SameShown threshold t) (mode : Mode) :
    ({ s with mode } : State).SameShown threshold { t with mode } :=
  h.update (fun s => { s with mode }) fun _ _ => ⟨rfl, rfl⟩

theorem write (h : s.SameShown threshold t) (text : String) :
    (s.write text).SameShown threshold (t.write text) :=
  h.update (State.write · text) fun _ _ => ⟨rfl, rfl⟩

theorem push (h : s.SameShown threshold t) (v : Value) :
    (s.push v).SameShown threshold (t.push v) :=
  h.update (State.push · v) fun _ _ => ⟨rfl, rfl⟩

theorem stack_eq (h : s.SameShown threshold t) : s.stack = t.stack :=
  h.congr State.stack fun _ _ => rfl

theorem dict_eq (h : s.SameShown threshold t) : s.dict = t.dict :=
  h.congr State.dict fun _ _ => rfl

theorem mode_eq (h : s.SameShown threshold t) : s.mode = t.mode :=
  h.congr State.mode fun _ _ => rfl

theorem input_eq (h : s.SameShown threshold t) : s.input = t.input :=
  h.congr State.input fun _ _ => rfl

theorem out_eq (h : s.SameShown threshold t) : s.out = t.out :=
  h.congr State.out fun _ _ => rfl

/-- What is shown of the two logs is the same text. -/
theorem render_eq (h : s.SameShown threshold t) :
    Event.render threshold s.log = Event.render threshold t.log := by
  obtain ⟨log, rfl, hlog⟩ := h
  exact hlog

/-! ### Definitions -/

/-- To finish a definition logs the same event on both sides. -/
theorem finish (h : s.SameShown threshold t) : s.finish.SameShown threshold t.finish := by
  simp only [State.finish, ← h.dict_eq]
  cases s.dict.activeWord? with
  | none => exact h.withDict _
  | some w => exact (h.withDict _).record _

/-- To abandon a definition logs the same event on both sides. -/
theorem abandon (h : s.SameShown threshold t) : s.abandon.SameShown threshold t.abandon := by
  simp only [State.abandon, ← h.dict_eq]
  cases s.dict.activeWord? with
  | none => exact h.withDict _
  | some w => exact (h.withDict _).record _

theorem define (h : s.SameShown threshold t) (name : String) :
    (s.define name).SameShown threshold (t.define name) := by
  simp only [State.define, ← h.dict_eq]
  exact (h.withDict _).record _

/-- Whether a definition may begin does not depend on the log. -/
theorem beginDefinition (h : s.SameShown threshold t) :
    Alike (SameShown threshold) s.beginDefinition t.beginDefinition := by
  obtain ⟨log, rfl, hlog⟩ := h
  simp only [State.beginDefinition]
  cases s.dict.activeWord? with
  | none => exact .ok ⟨log, rfl, hlog⟩
  | some w => exact .fail ⟨log, rfl, hlog⟩

theorem endDefinition (h : s.SameShown threshold t) :
    Alike (SameShown threshold) s.endDefinition t.endDefinition := by
  simp only [State.endDefinition, ← h.mode_eq]
  cases s.mode with
  | interpret => exact .fail h
  | compile => exact .ok (h.finish.withMode .interpret)

/-! ### Primitives -/

/-- Reading a name does not depend on the log. -/
theorem readName (h : s.SameShown threshold t) (op : String) :
    Alike (SameShown threshold) (s.readName op) (t.readName op) := by
  simp only [State.readName, ← h.input_eq]
  cases s.input with
  | none => exact .fail h
  | some tokens =>
      cases tokens with
      | nil => exact .fail h
      | cons token rest => exact .ok (h.withInput (some rest))

theorem resolve (h : s.SameShown threshold t) (name : String) :
    Alike (SameShown threshold) (s.resolve name) (t.resolve name) := by
  simp only [State.resolve, ← h.dict_eq]
  cases (s.dict.lookupOutside name).bind (s.dict.entries[·]?) with
  | none => exact .fail h
  | some w => exact .ok h

theorem tick (h : s.SameShown threshold t) : Alike (SameShown threshold) s.tick t.tick := by
  refine (h.readName "'").bind (fun h => h) ?_
  intro name s t h
  refine (h.resolve name).bind (fun h => h) ?_
  intro w s t h
  exact .ok (h.push (.ref w.ref))

theorem see (h : s.SameShown threshold t) : Alike (SameShown threshold) s.see t.see := by
  refine (h.readName "see").bind (fun h => h) ?_
  intro name s t h
  refine (h.resolve name).bind (fun h => h) ?_
  intro w s t h
  refine (Alike.of_ofText? w.source? h).bind (fun h => h) ?_
  intro text s t h
  exact .ok (h.write (text ++ "\n"))

/-- Taking a reference does not depend on the log. -/
theorem popRef (h : s.SameShown threshold t) : Alike (SameShown threshold) s.popRef t.popRef := by
  simp only [State.popRef, ← h.stack_eq]
  cases s.stack with
  | nil => exact .fail h
  | cons v rest =>
      cases v with
      | ref r => exact .ok (h.withStack rest)
      | _ =>
          refine (Alike.of_ofText? _ (h.withStack rest)).bind (fun h => h) ?_
          intro got s t h
          exact .fail h

/-- No primitive reads the log. -/
theorem interchangeable (threshold : Level) : Interchangeable (SameShown threshold) where
  dict_eq := fun h => h.dict_eq
  push := fun v h => h.push v
  run := by
    intro s t p h
    cases p with
    | inert name => exact .ok h
    | data w =>
        refine w.alike_runOn h.stack_eq ?_
        intro stack text
        exact (h.withStack stack).write text
    | system w =>
        cases w with
        | colon => exact h.beginDefinition.map _
        | semicolon => exact h.endDefinition.map _
        | tick => exact h.tick.map _
        | execute => exact h.popRef.map _
        | see => exact h.see.map _
        | words =>
            simp only [Primitive.run, SystemWord.run, State.listWords, ← h.dict_eq]
            exact .ok (h.write _)

end State.SameShown

/-! ### Machines -/

/-- No word is running, and the states differ in their logs alone, and not in what is shown of
these. -/
structure Machine.SameShown (threshold : Level) (m n : Machine) : Prop where
  idle : m.calls = .empty
  idle' : n.calls = .empty
  state : m.state.SameShown threshold n.state

namespace Machine.SameShown

variable {limit : Limit} {threshold : Level} {m n : Machine}

theorem withState (h : m.SameShown threshold n) {s t : State} (hst : s.SameShown threshold t) :
    (m.withState s).SameShown threshold (n.withState t) := ⟨h.idle, h.idle', hst⟩

/-- A word that is executed does the same whatever was logged before. -/
theorem executeWord (h : m.SameShown threshold n) (handle : Int) :
    Alike (SameShown threshold) (m.executeWord limit handle) (n.executeWord limit handle) := by
  have hword := (State.SameShown.interchangeable threshold).executeWord limit handle h.idle h.idle'
    h.state
  exact hword.mono fun hst => ⟨hst.1, hst.2.1, hst.2.2⟩

/-- A new word is named, and marked immediate, in the same way on both sides. -/
theorem startDefinition (h : m.SameShown threshold n) (t : Token) :
    (m.startDefinition t).SameShown threshold (n.startDefinition t) := by
  have hdefine := h.state.define t.text
  simp only [Machine.startDefinition, ← hdefine.input_eq, ← hdefine.dict_eq, ← h.state.dict_eq]
  cases (m.state.define t.text).input with
  | none => exact h.withState hdefine
  | some tokens =>
      cases tokens with
      | nil => exact h.withState hdefine
      | cons next rest =>
          by_cases hmarker : next.isImmediateMarker = true
          · simp only [if_pos hmarker]
            exact h.withState ((hdefine.withInput (some rest)).withDict _)
          · simp only [if_neg hmarker]
            exact h.withState hdefine

/-- Machines that differ in their logs alone do the same, and go on to show the same. -/
theorem lockstep (limit : Limit) (threshold : Level) :
    Lockstep limit limit (fun _ => False) (SameShown threshold) where
  mode_eq := fun h => h.state.mode_eq
  dict_eq := fun h => h.state.dict_eq
  input_eq := fun h => h.state.input_eq
  act := by
    intro a m n h
    refine .inr ?_
    cases a with
    | word k => exact h.executeWord k
    | top =>
        refine (h.state.popRef.mapState h.withState).bind (fun h => h) ?_
        intro r m n h
        exact h.executeWord r.handle
    | pop =>
        simp only [Act.perform, Session.onStack, ← h.state.stack_eq]
        exact (Alike.of_mapState (fun stack => h.withState (h.state.withStack stack)) _).map _
    | push vs =>
        simp only [Act.perform, ← h.state.stack_eq]
        exact .ok (h.withState (h.state.withStack _))
    | feed input => exact .ok (h.withState (h.state.withInput input))
    | write text => exact .ok (h.withState (h.state.write text))
    | record e => exact .ok (h.withState (h.state.record e))
    | finish => exact .ok (h.withState h.state.finish)
    | define t => exact .ok (h.startDefinition t)
    | extend k c =>
        simp only [Act.perform, Machine.extend, ← h.state.dict_eq]
        exact .of_mapState (fun d => h.withState (h.state.withDict d)) _
    | endDefinition => exact h.state.endDefinition.mapState h.withState
    | abort => exact .ok ⟨rfl, rfl, (h.state.withStack []).abandon.withMode .interpret⟩

/-- The same source does the same, and has the same log shown. -/
theorem execute (h : m.SameShown threshold n) (limit : Limit) (final : Bool) (source : String) :
    Alike (SameShown threshold) (m.execute limit final source) (n.execute limit final source) :=
  ((lockstep limit threshold).execute final source h).alike

end Machine.SameShown

end ThreadedForth
