import ThreadedForth.Proofs.Dictionary
import ThreadedForth.Proofs.Evaluation
/-!
# ThreadedForth.Proofs.Simulation

The same word, run in two states.

What a word can do depends on the primitives it is made of, through all the words it calls
(`Dictionary.Uses`). If each of them takes related states to related states, so does the word
(`Simulation.evalCall`), whatever else differs between the two: their dictionaries need only
offer the words that one dictionary offers.

Words that use no system word are the simplest case (`simulation_of_data`). They read the
stack, write to the stack and the output, and see nothing of the rest.
-/

namespace ThreadedForth

/-- The outcomes agree: the same result or the same fault, and states related by `R`. -/
inductive Outcome.Alike {σ τ α : Type} (R : σ → τ → Prop) : Outcome σ α → Outcome τ α → Prop where
  /-- Both succeed. -/
  | ok {a : α} {s : σ} {t : τ} : R s t → Alike R (.ok a s) (.ok a t)
  /-- Both fail. -/
  | fail {f : Fault} {s : σ} {t : τ} : R s t → Alike R (.fail f s) (.fail f t)

namespace Outcome.Alike

variable {σ τ α β : Type} {R : σ → τ → Prop}

/-- Sequencing: the first parts may be related more closely than the whole is. -/
theorem bind {Q : σ → τ → Prop} {x : Outcome σ α} {y : Outcome τ α}
    {next : α → σ → Outcome σ β} {next' : α → τ → Outcome τ β} (h : Alike R x y)
    (hfail : ∀ {s t}, R s t → Q s t)
    (hnext : ∀ a {s t}, R s t → Alike Q (next a s) (next' a t)) :
    Alike Q (x.bind next) (y.bind next') := by
  cases h with
  | ok hst => exact hnext _ hst
  | fail hst => exact .fail (hfail hst)

theorem state {x : Outcome σ α} {y : Outcome τ α} (h : Alike R x y) : R x.state y.state := by
  cases h with
  | ok hst => exact hst
  | fail hst => exact hst

/-- Outcomes that agree have the same fault, or none. -/
theorem fault?_eq {x : Outcome σ α} {y : Outcome τ α} (h : Alike R x y) : x.fault? = y.fault? := by
  cases h <;> rfl

theorem mono {Q : σ → τ → Prop} {x : Outcome σ α} {y : Outcome τ α} (h : Alike R x y)
    (hQ : ∀ {s t}, R s t → Q s t) : Alike Q x y := by
  cases h with
  | ok hst => exact .ok (hQ hst)
  | fail hst => exact .fail (hQ hst)

/-- What is known of the first outcome's state may be added to the relation. -/
theorem and_left {I : σ → Prop} {x : Outcome σ α} {y : Outcome τ α} (h : Alike R x y)
    (hI : I x.state) : Alike (fun s t => I s ∧ R s t) x y := by
  cases h with
  | ok hst => exact .ok ⟨hI, hst⟩
  | fail hst => exact .fail ⟨hI, hst⟩

/-- Sequencing where the second part depends on what the first one ended with. -/
theorem bind_eq {Q : σ → τ → Prop} {x : Outcome σ α} {y : Outcome τ α}
    {next : α → σ → Outcome σ β} {next' : α → τ → Outcome τ β} (h : Alike R x y)
    (hfail : ∀ {s t}, R s t → Q s t)
    (hnext : ∀ a {s t}, x = .ok a s → R s t → Alike Q (next a s) (next' a t)) :
    Alike Q (x.bind next) (y.bind next') := by
  cases h with
  | ok hst => exact hnext _ rfl hst
  | fail hst => exact .fail (hfail hst)

/-- Sequencing where the results differ by `g`. -/
theorem bind_map {γ : Type} {Q : σ → τ → Prop} {g : α → γ} {x : Outcome σ α} {y : Outcome τ γ}
    {next : α → σ → Outcome σ β} {next' : γ → τ → Outcome τ β} (h : Alike R (x.map g) y)
    (hfail : ∀ {s t}, R s t → Q s t)
    (hnext : ∀ a {s t}, x = .ok a s → R s t → Alike Q (next a s) (next' (g a) t)) :
    Alike Q (x.bind next) (y.bind next') := by
  cases x with
  | ok a s =>
      cases h with
      | ok hst => exact hnext a rfl hst
  | fail f s =>
      cases h with
      | fail hst => exact .fail (hfail hst)

/-- A function of the result keeps outcomes alike. -/
theorem map {x : Outcome σ α} {y : Outcome τ α} (g : α → β) (h : Alike R x y) :
    Alike R (x.map g) (y.map g) := by
  cases h with
  | ok hst => exact .ok hst
  | fail hst => exact .fail hst

/-- States may be seen through two functions, if these keep them related. -/
theorem mapState {ρ π : Type} {Q : ρ → π → Prop} {x : Outcome σ α} {y : Outcome τ α} {f : σ → ρ}
    {g : τ → π} (h : Alike R x y) (hQ : ∀ {s t}, R s t → Q (f s) (g t)) :
    Alike Q (x.mapState f) (y.mapState g) := by
  cases h with
  | ok hst => exact .ok (hQ hst)
  | fail hst => exact .fail (hQ hst)

/-- Where related states determine each other, so do outcomes that are alike. -/
theorem eq_mapState {x : Outcome σ α} {y : Outcome τ α} {g : σ → τ} (h : Alike R x y)
    (hg : ∀ s t, R s t → t = g s) : y = x.mapState g := by
  cases h with
  | ok hst => rw [hg _ _ hst]; rfl
  | fail hst => rw [hg _ _ hst]; rfl

/-- The first outcome's state may be seen through a function alone. -/
theorem mapState_left {ρ : Type} {x : Outcome σ α} {y : Outcome τ α} (f : σ → ρ)
    (h : Alike R x y) : Alike (fun r t => ∃ s, r = f s ∧ R s t) (x.mapState f) y := by
  cases h with
  | ok hst => exact .ok ⟨_, rfl, hst⟩
  | fail hst => exact .fail ⟨_, rfl, hst⟩

/-- A function of the fault keeps outcomes alike. -/
theorem mapFault {x : Outcome σ α} {y : Outcome τ α} (g : Fault → Fault) (h : Alike R x y) :
    Alike R (x.mapFault g) (y.mapFault g) := by
  cases h with
  | ok hst => exact .ok hst
  | fail hst => exact .fail hst

end Outcome.Alike

/-! ### The primitives of a word -/

/-- The word at the handle is made of the primitive, or calls a word that uses it. -/
inductive Dictionary.Uses (d : Dictionary) : Int → Primitive → Prop where
  /-- The primitive stands in the word's own code. -/
  | primitive {h : Int} {w : Word} {p : Primitive} : d.word? h = some w →
      .primitive p ∈ w.code → d.Uses h p
  /-- The word calls one that uses it. -/
  | word {h : Int} {w : Word} {r : WordRef} {p : Primitive} : d.word? h = some w →
      .word r ∈ w.code → d.Uses r.handle p → d.Uses h p

/-- The cell is the primitive, or calls a word that uses it. -/
def Cell.Uses (d : Dictionary) (p : Primitive) : Cell → Prop
  | .primitive q => q = p
  | .word r => d.Uses r.handle p
  | .literal _ => False

/-- A word uses what its cells use. -/
theorem Dictionary.uses_of_mem {d : Dictionary} {h : Int} {w : Word} {c : Cell} {p : Primitive}
    (hw : d.word? h = some w) (hc : c ∈ w.code) (hp : c.Uses d p) : d.Uses h p := by
  cases c with
  | primitive q =>
      obtain rfl : q = p := hp
      exact .primitive hw hc
  | word r => exact .word hw hc hp
  | literal v => exact absurd hp id

/-- A word uses a primitive exactly if one of its cells does. -/
theorem Dictionary.uses_iff {d : Dictionary} {h : Int} {w : Word} {p : Primitive}
    (hw : d.word? h = some w) : d.Uses h p ↔ ∃ c ∈ w.code, c.Uses d p := by
  refine ⟨fun hp => ?_, fun ⟨c, hc, hp⟩ => uses_of_mem hw hc hp⟩
  cases hp with
  | primitive hv hmem =>
      obtain rfl := Option.some.inj (hw.symm.trans hv)
      exact ⟨_, hmem, rfl⟩
  | word hv hmem hr =>
      obtain rfl := Option.some.inj (hw.symm.trans hv)
      exact ⟨_, hmem, hr⟩

/-- A built-in word uses its own primitive alone. -/
theorem Dictionary.Uses.eq_of_code {d : Dictionary} {h : Int} {w : Word} {p q : Primitive}
    (hp : d.Uses h p) (hw : d.word? h = some w) (hcode : w.code = [.primitive q]) : p = q := by
  obtain ⟨c, hc, hp⟩ := (Dictionary.uses_iff hw).1 hp
  obtain rfl : c = .primitive q := by simpa [hcode] using hc
  exact hp.symm

theorem Dictionary.Offers.word?_eq {d : Dictionary} {k : Nat} {w : Word} (h : d.Offers k w) :
    d.word? k = some w := by
  rw [word?, itemAt?_natCast, h.1]

/-! ### Simulations -/

/-- The primitives with `P` keep two states related by `R`, in both of which the words that `d`
offers are offered. No word is called but by name. -/
structure Simulation (d : Dictionary) (P : Primitive → Prop) (R : State → State → Prop) :
    Prop where
  /-- The words that `d` offers are the same in both states. -/
  keeps : ∀ {s t}, R s t → d.Keeps s.dict ∧ d.Keeps t.dict
  /-- Literals. -/
  push : ∀ {s t} n, R s t → R (s.push (.int n)) (t.push (.int n))
  /-- Primitives. -/
  run : ∀ {p s t}, P p → R s t → Outcome.Alike R (p.run s) (p.run t)
  /-- No primitive calls a word. -/
  ne_execute : ∀ {p}, P p → p ≠ .system .execute

namespace Simulation

variable {limit : Limit} {d : Dictionary} {mode : Mode} {P : Primitive → Prop}
  {R : State → State → Prop} {call : Int → State → Outcome State Unit}

section

variable (hsim : Simulation d P R)
  (hcall : ∀ {k w s t}, d.Offers k w → (∀ p, d.Uses k p → P p) → R s t →
    Outcome.Alike R (call k s) (call k t))
include hsim hcall

/-- A cell that is admitted, and uses primitives with `P` only, keeps two states related. -/
theorem evalCell {i : Nat} {c : Cell} (hc : d.Admits i c) (hP : ∀ p, c.Uses d p → P p)
    {s t : State} (h : R s t) : Outcome.Alike R (evalCell call c s) (evalCell call c t) := by
  cases c with
  | literal v =>
      obtain ⟨n, rfl⟩ := hc
      exact .ok (hsim.push n h)
  | word r =>
      obtain ⟨k, w, hw, rfl, -⟩ := hc
      exact hcall hw hP h
  | primitive p =>
      have hp : P p := hP p rfl
      have hnone : ∀ {r s'}, p.run s ≠ .ok (some r) s' := fun hr =>
        hsim.ne_execute hp (Primitive.run_eq_ok_some hr).1
      have hrun := hsim.run hp h
      simp only [ThreadedForth.evalCell]
      generalize p.run s = x, p.run t = y at hrun hnone ⊢
      cases hrun with
      | fail hst => exact .fail hst
      | @ok wanted s' t' hst =>
          cases wanted with
          | none => exact .ok hst
          | some r => exact absurd rfl hnone

/-- Cells keep two states related one after another. -/
theorem evalCode {i : Nat} (code : List Cell) (hcode : ∀ c ∈ code, d.Admits i c)
    (hP : ∀ c ∈ code, ∀ p, c.Uses d p → P p) : ∀ {s t : State}, R s t →
      Outcome.Alike R (evalCode call code s) (evalCode call code t) := by
  induction code with
  | nil => exact fun h => .ok h
  | cons c code ih =>
      intro s t h
      have hcell := hsim.evalCell hcall (hcode c List.mem_cons_self) (hP c List.mem_cons_self) h
      refine .bind hcell (fun hst => hst) fun _ _ _ hst => ?_
      exact ih (fun b hb => hcode b (List.mem_cons_of_mem c hb))
        (fun b hb => hP b (List.mem_cons_of_mem c hb)) hst

end

/-- A word made of primitives with `P` keeps related states related. -/
theorem evalCall (hsim : Simulation d P R) (hd : d.Coherent mode) (free : Nat) :
    ∀ {k : Nat} {w : Word} {s t : State}, d.Offers k w → (∀ p, d.Uses k p → P p) → R s t →
      Outcome.Alike R (evalCall limit free k s) (evalCall limit free k t) := by
  induction free with
  | zero =>
      intro k w s t hw _ h
      rw [evalCall_zero limit ((hsim.keeps h).1 hw).word?_eq,
        evalCall_zero limit ((hsim.keeps h).2 hw).word?_eq]
      exact .fail h
  | succ free ih =>
      intro k w s t hw hP h
      rw [evalCall_succ limit ((hsim.keeps h).1 hw).word?_eq,
        evalCall_succ limit ((hsim.keeps h).2 hw).word?_eq]
      -- Both run the same code, because both dictionaries hold the same word there.
      refine .mapFault _ (hsim.evalCode ih w.code (hd.admits hw.1) (fun c hc p hp => ?_) h)
      exact hP p (Dictionary.uses_of_mem hw.word?_eq hc hp)

end Simulation

/-! ### Words that use no system word -/

/-- The two states come from `s₀` and `t₀` by the same changes to the stack and the output. -/
def State.InStep (s₀ t₀ s t : State) : Prop :=
  ∃ stack text, s = (s₀.withStack stack).write text ∧ t = (t₀.withStack stack).write text

theorem State.InStep.refl {s₀ t₀ : State} (h : s₀.stack = t₀.stack) : InStep s₀ t₀ s₀ t₀ :=
  ⟨s₀.stack, "", by simp [State.withStack, State.write], by simp [h, State.withStack, State.write]⟩

/-- Changing both stacks alike, and writing the same text, keeps two states in step. -/
theorem State.InStep.withStack {s₀ t₀ s t : State} (h : InStep s₀ t₀ s t) (stack : Stack)
    (text : String) : InStep s₀ t₀ ((s.withStack stack).write text)
      ((t.withStack stack).write text) := by
  obtain ⟨stack', text', rfl, rfl⟩ := h
  exact ⟨stack, text' ++ text, by simp [State.withStack, State.write, String.append_assoc],
    by simp [State.withStack, State.write, String.append_assoc]⟩

/-- A data word does the same on equal stacks. -/
theorem DataWord.alike_runOn {R : State → State → Prop} {s t : State} (w : DataWord)
    (hstack : s.stack = t.stack)
    (h : ∀ stack text, R ((s.withStack stack).write text) ((t.withStack stack).write text)) :
    Outcome.Alike R (w.runOn s) (w.runOn t) := by
  simp only [runOn, hstack]
  cases w.run t.stack with
  | ok text stack => exact .ok (h stack text)
  | fail f stack => exact .fail (by simpa [State.write] using h stack "")

/-- Words that use no system word look at the stack alone. -/
theorem simulation_of_data {d : Dictionary} {s₀ t₀ : State} (hs : d.Keeps s₀.dict)
    (ht : d.Keeps t₀.dict) :
    Simulation d (fun p => ∀ w, p ≠ .system w) (State.InStep s₀ t₀) where
  keeps := by
    rintro s t ⟨stack, text, rfl, rfl⟩
    exact ⟨hs, ht⟩
  push := by
    rintro s t n ⟨stack, text, rfl, rfl⟩
    exact ⟨.int n :: stack, text, rfl, rfl⟩
  run := by
    rintro p s t hp h
    have hstack : s.stack = t.stack := by
      obtain ⟨stack, text, rfl, rfl⟩ := h
      rfl
    cases p with
    | system w => exact absurd rfl (hp w)
    | inert name => exact .ok h
    | data w => exact w.alike_runOn hstack h.withStack
  ne_execute := fun hp => hp .execute

end ThreadedForth
