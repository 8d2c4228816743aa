import ThreadedForth.Outcome
/-!
# ThreadedForth.Proofs.Outcome

How proofs speak about outcomes.

* `Outcome.Ensures` is what an operation guarantees: a property of the state it leaves behind,
  by success or failure, and a property of its fault if it fails. A failure is not rolled back,
  so an invariant of the interpreter is always a claim about both.
* `Fault.within` puts the names of the words around a piece of code in front of the trace of
  what went wrong in it. An evaluator that recurses on calls builds traces with it from the
  inside out, whereas the machine writes down all running words at once (`Fault.traced`); the
  two agree on a fault that carries no trace yet (`Fault.traced_eq_within`).
* `Fault.Plain` singles out the faults a primitive can fail with.
-/

namespace ThreadedForth

namespace Fault

/-- Put the names of the words around in front of the words a problem came out of. -/
def within (outer : List String) : Fault → Fault
  | problem p inner => problem p (outer ++ inner)
  | f => f

/-- No running word has been recorded for the fault. -/
def Untraced : Fault → Prop
  | problem _ trace => trace = []
  | _ => True

/-- A fault that a primitive can fail with: a problem with no trace yet, which is neither the
refusal of a call nor that of a finished word to be extended, or a number that is too long to be
shown. -/
def Plain : Fault → Prop
  | problem p trace => trace = [] ∧ p.kind ≠ .stackOverflow ∧ ∀ name, p ≠ .alreadyFinished name
  | digitLimit => True
  | _ => False

@[simp] theorem within_nil (f : Fault) : f.within [] = f := by cases f <;> rfl

@[simp] theorem within_raise (outer : List String) (p : Problem) :
    (raise p).within outer = problem p outer := by
  simp [raise, within]

@[simp] theorem within_noItem (outer : List String) (i : Int) :
    (noItem i).within outer = noItem i := rfl

/-- Words that are recorded later stand further out, in front of those recorded before. -/
theorem within_within (outer inner : List String) (f : Fault) :
    (f.within inner).within outer = f.within (outer ++ inner) := by
  cases f <;> simp [within]

/-- To a fault without a record, recording the words is putting them in front. -/
theorem traced_eq_within {f : Fault} (h : f.Untraced) (names : List String) :
    f.traced names = f.within names := by
  cases f with
  | problem p trace =>
      obtain rfl : trace = [] := h
      simp [traced, within]
  | _ => rfl

theorem Plain.untraced {f : Fault} (h : f.Plain) : f.Untraced := by
  cases f with
  | problem p trace => exact h.1
  | _ => exact trivial

/-- A problem is told from the refusal of a finished word by its text. -/
theorem plain_raise {p : Problem} (hkind : p.kind ≠ .stackOverflow)
    (h : p.text ≠ "cannot extend a finished definition") : (raise p).Plain := by
  refine ⟨rfl, hkind, fun name hp => h ?_⟩
  rw [hp]
  rfl

end Fault

namespace Outcome

variable {σ τ α β : Type}

/-- Change the fault of a failure. -/
def mapFault (g : Fault → Fault) (x : Outcome σ α) : Outcome σ α :=
  match x with
  | ok a s => ok a s
  | fail f s => fail (g f) s

/-- The operation leaves a state with `I` behind, and if it fails, a fault with `A`. -/
def Ensures (x : Outcome σ α) (I : σ → Prop) (A : Fault → Prop) : Prop :=
  I x.state ∧ ∀ f, x.fault? = some f → A f

@[simp] theorem fault?_mapState (g : σ → τ) (x : Outcome σ α) :
    (x.mapState g).fault? = x.fault? := by
  cases x <;> rfl

/-- Without a fault there was a success. -/
theorem exists_eq_ok {x : Outcome σ α} (h : x.fault? = none) : ∃ a s, x = .ok a s := by
  cases x with
  | ok a s => exact ⟨a, s, rfl⟩
  | fail f s => cases h

/-- With a fault there was a failure. -/
theorem exists_eq_fail {x : Outcome σ α} {f : Fault} (h : x.fault? = some f) :
    ∃ s, x = .fail f s := by
  cases x with
  | ok a s => cases h
  | fail g s =>
      obtain rfl : g = f := Option.some.inj h
      exact ⟨s, rfl⟩

@[simp] theorem mapFault_ok (g : Fault → Fault) (a : α) (s : σ) :
    (ok a s).mapFault g = ok a s := rfl
@[simp] theorem mapFault_fail (g : Fault → Fault) (f : Fault) (s : σ) :
    (fail f s : Outcome σ α).mapFault g = fail (g f) s := rfl

namespace Ensures

variable {I J : σ → Prop} {A B : Fault → Prop}

theorem ok {a : α} {s : σ} (h : I s) : (Outcome.ok a s).Ensures I A :=
  ⟨h, fun f hf => by simp at hf⟩

theorem fail {f : Fault} {s : σ} (h : I s) (hf : A f) :
    (Outcome.fail f s : Outcome σ α).Ensures I A := by
  refine ⟨h, fun g hg => ?_⟩
  obtain rfl : f = g := by simpa using hg
  exact hf

/-- A text that cannot be written is one more way to fail. -/
theorem of_ofText? {text : Option α} {s : σ} (h : I s) (hf : A .digitLimit) :
    (ofText? text s).Ensures I A := by
  cases text with
  | some a => exact ok h
  | none => exact fail h hf

/-- A contract may be weakened, both in what it says of states and in what it says of faults. -/
theorem mono {x : Outcome σ α} (h : x.Ensures I A) (hI : ∀ s, I s → J s)
    (hA : ∀ f, A f → B f) : x.Ensures J B :=
  ⟨hI _ h.1, fun f hf => hA f (h.2 f hf)⟩

/-- Sequencing: the rest may rely on what the first part left behind. -/
theorem bind {x : Outcome σ α} {next : α → σ → Outcome σ β} (hx : x.Ensures I A)
    (hnext : ∀ a s, x = .ok a s → I s → (next a s).Ensures I A) : (x.bind next).Ensures I A := by
  cases x with
  | ok a s => exact hnext a s rfl hx.1
  | fail f s => exact fail hx.1 (hx.2 f rfl)

/-- What an operation answers does not matter to its contract. -/
theorem map {x : Outcome σ α} (g : α → β) (hx : x.Ensures I A) : (x.map g).Ensures I A := by
  cases x with
  | ok a s => exact ok hx.1
  | fail f s => exact fail hx.1 (hx.2 f rfl)

/-- A contract on a part of the state is one on the whole state. -/
theorem mapState {x : Outcome σ α} {g : σ → τ} {K : τ → Prop}
    (hx : x.Ensures (fun s => K (g s)) A) : (x.mapState g).Ensures K A := by
  cases x with
  | ok a s => exact ok hx.1
  | fail f s => exact fail hx.1 (hx.2 f rfl)

/-- A contract on faults is changed as the faults are. -/
theorem mapFault {x : Outcome σ α} {g : Fault → Fault} (hx : x.Ensures I A)
    (hA : ∀ f, A f → B (g f)) : (x.mapFault g).Ensures I B := by
  cases x with
  | ok a s => exact ok hx.1
  | fail f s => exact fail hx.1 (hA f (hx.2 f rfl))

end Ensures

end Outcome

end ThreadedForth
