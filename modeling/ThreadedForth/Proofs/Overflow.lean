import ThreadedForth.Proofs.Evaluation
/-!
# ThreadedForth.Proofs.Overflow

A limit that is not reached makes no difference.

The only fault that a limit brings into an evaluation is the refusal of a call
(`Fault.Overflow`). An evaluation that ends in any other way (`Outcome.Fits`) never asked for
more room than it had, so it goes the same way with more of it. The proof follows the evaluator:
if two ways to call words agree on all calls that fit, so do the cells and the code run with
them.
-/

namespace ThreadedForth

/-- A call was refused because too many words were running. -/
def Fault.Overflow : Fault → Prop
  | problem p _ => ∃ name, p = .tooDeep name
  | _ => False

/-- Want of room does not depend on the words a problem came out of. -/
theorem Fault.overflow_within {f : Fault} {names : List String} :
    (f.within names).Overflow ↔ f.Overflow := by
  cases f <;> exact Iff.rfl

namespace Outcome

variable {σ α β : Type}

/-- The operation did not ask for more room than it had. -/
def Fits (x : Outcome σ α) : Prop := ∀ f, x.fault? = some f → ¬ f.Overflow

/-- If all of a sequence had room, so had the first part of it. -/
theorem Fits.left {x : Outcome σ α} {next : α → σ → Outcome σ β} (h : (x.bind next).Fits) :
    x.Fits := by
  cases x with
  | ok a s => simp [Fits]
  | fail f s => exact h

theorem Fits.of_within {x : Outcome σ α} {names : List String}
    (h : (x.mapFault (.within names)).Fits) : x.Fits := by
  cases x with
  | ok a s => simp [Fits]
  | fail f s =>
      intro g hg hoverflow
      obtain rfl : f = g := by simpa using hg
      exact h (f.within names) rfl (Fault.overflow_within.2 hoverflow)

theorem Fits.of_mapState {τ : Type} {x : Outcome σ α} {g : σ → τ} (h : (x.mapState g).Fits) :
    x.Fits := by
  cases x with
  | ok a s => simp [Fits]
  | fail f s => exact h

end Outcome

/-! ### Two ways to call words -/

section

variable {call call' : Int → State → Outcome State Unit}
  (hcall : ∀ h s, (call h s).Fits → call' h s = call h s)
include hcall

/-- A cell does the same if the words it can call do the same whenever they have room. -/
theorem evalCell_of_fits (c : Cell) {s : State} (h : (evalCell call c s).Fits) :
    evalCell call' c s = evalCell call c s := by
  cases c with
  | literal v => rfl
  | word r => exact hcall r.handle s h
  | primitive p =>
      simp only [evalCell] at h ⊢
      cases hp : p.run s with
      | fail f t => rfl
      | ok wanted t =>
          rw [hp] at h
          cases wanted with
          | none => rfl
          | some r => exact hcall r.handle t h

/-- By induction on the cells, so does a list of cells. -/
theorem evalCode_of_fits (code : List Cell) : ∀ {s : State}, (evalCode call code s).Fits →
    evalCode call' code s = evalCode call code s := by
  induction code with
  | nil => exact fun _ => rfl
  | cons c code ih =>
      intro s h
      have hcell := evalCell_of_fits hcall c h.left
      simp only [evalCode, hcell] at h ⊢
      cases hc : evalCell call c s with
      | fail f t => rfl
      | ok a t =>
          rw [hc] at h
          exact ih h

end

/-- A call that fits goes the same way with more room, and under any limit. -/
theorem evalCall_of_fits {n n' : Int} {free free' : Nat} (hle : free ≤ free') :
    ∀ {handle : Int} {s : State}, (evalCall (.atMost n) free handle s).Fits →
      evalCall (.atMost n') free' handle s = evalCall (.atMost n) free handle s := by
  induction free generalizing free' with
  | zero =>
      intro handle s h
      cases hw : s.dict.word? handle with
      | none => rw [evalCall_of_word?_eq_none _ hw, evalCall_of_word?_eq_none _ hw]
      | some w =>
          -- Without room the call is refused, and `h` says that it was not.
          rw [evalCall_zero _ hw] at h
          exact absurd ⟨w.name, rfl⟩ (h _ rfl)
  | succ free ih =>
      intro handle s h
      cases hw : s.dict.word? handle with
      | none => rw [evalCall_of_word?_eq_none _ hw, evalCall_of_word?_eq_none _ hw]
      | some w =>
          obtain ⟨k, rfl⟩ : ∃ k, free' = k + 1 := ⟨free' - 1, by omega⟩
          rw [evalCall_succ _ hw] at h ⊢
          rw [evalCall_succ _ hw]
          have hcode : evalCode (evalCall (.atMost n') k) w.code s =
              evalCode (evalCall (.atMost n) free) w.code s :=
            evalCode_of_fits (fun handle s => ih (by omega)) w.code h.of_within
          rw [hcode]

end ThreadedForth
