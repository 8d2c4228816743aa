import Mathlib
import ThreadedForth.Proofs.Lockstep
import ThreadedForth.Proofs.Overflow
import ThreadedForth.Proofs.Unwinding
/-!
# ThreadedForth.Proofs.Room

The same session with more room.

A word that was run without a refusal does the same under any limit that is no lower
(`Machine.executeWord_of_fits`), so the limit decides about nothing but refusals. Two interpreters
with the same machine, one with more room than the other, therefore stay in lockstep until the
narrower one is refused a call, and a session in which no step ends with such a refusal is, step by
step, the session with more room (`Session.transcript_eq_of_le`).

A conversation is the one command that is left out: it goes on after a refusal, so the answer to it
does not tell that there was one.
-/

namespace ThreadedForth

namespace Outcome

variable {σ α β : Type} {x y : Outcome σ α} {I : σ → Prop}

theorem Fits.of_map {g : α → β} (h : (x.map g).Fits) : x.Fits := by
  cases x with
  | ok a s => simp [Fits]
  | fail f s => exact h

/-- Two operations are alike up to refusals if they agree whenever the first one fits. -/
theorem AlikeUnless.of_fits (heq : x.Fits → y = x) (hx : I x.state) :
    AlikeUnless Fault.Overflow (fun s t => I s ∧ s = t) x y := by
  by_cases hfits : x.Fits
  · rw [heq hfits]
    cases x with
    | ok a s => exact .ok ⟨hx, rfl⟩
    | fail f s => exact .fail ⟨hx, rfl⟩
  · simp only [Fits, not_forall, not_not] at hfits
    obtain ⟨f, hf, hoverflow⟩ := hfits
    exact .inl ⟨f, hf, hoverflow⟩

theorem AlikeUnless.eq_of_fits (h : AlikeUnless Fault.Overflow (fun s t => I s ∧ s = t) x y)
    (hx : x.Fits) : y = x := by
  rcases h with ⟨f, hf, hoverflow⟩ | h
  · exact absurd hoverflow (hx f hf)
  · cases h with
    | ok hst => rw [hst.2]
    | fail hst => rw [hst.2]

end Outcome

open Outcome (AlikeUnless)

variable {n n' : Int} {m : Machine}

namespace Machine

/-- A word that fits does the same with more room. -/
theorem executeWord_of_fits (hle : n ≤ n') (hm : m.calls = .empty) {handle : Int}
    (h : (m.executeWord (.atMost n) handle).Fits) :
    m.executeWord (.atMost n') handle = m.executeWord (.atMost n) handle := by
  have hroom : (Limit.atMost n).room ≤ (Limit.atMost n').room := Int.toNat_le_toNat hle
  rw [executeWord_of_idle hm] at h
  rw [executeWord_of_idle hm, executeWord_of_idle hm, evalCall_of_fits hroom h.of_mapState]

end Machine

/-- An act that fits does the same with more room: only running a word takes any. -/
theorem Act.perform_of_fits (hle : n ≤ n') (hm : m.calls = .empty) (a : Act)
    (h : (a.perform (.atMost n) m).Fits) :
    a.perform (.atMost n') m = a.perform (.atMost n) m := by
  cases a with
  | word handle => exact Machine.executeWord_of_fits hle hm h
  | top =>
      simp only [perform, Session.executeTop] at h ⊢
      cases hr : m.state.popRef with
      | fail f s => rfl
      | ok r s =>
          rw [hr] at h
          exact Machine.executeWord_of_fits (m := m.withState s) hle hm h
  | _ => rfl

/-- Two idle interpreters with the same machine stay in lockstep until the one with less room is
refused a call. -/
theorem lockstep_of_le (hle : n ≤ n') :
    Lockstep (.atMost n) (.atMost n') Fault.Overflow fun m m' => m.calls = .empty ∧ m = m' where
  mode_eq := by
    rintro m m' ⟨-, rfl⟩
    rfl
  dict_eq := by
    rintro m m' ⟨-, rfl⟩
    rfl
  input_eq := by
    rintro m m' ⟨-, rfl⟩
    rfl
  act := by
    rintro a m m' ⟨hm, rfl⟩
    exact .of_fits (a.perform_of_fits hle hm) (Machine.calls_act a hm)

namespace Session

/-- A command that fits does the same with more room. -/
theorem perform_of_fits (hle : n ≤ n') (hm : m.calls = .empty) {c : Command}
    (hc : ∀ answers, c ≠ .repl answers) (h : (perform (.atMost n) m c).2.Fits) :
    perform (.atMost n') m c = perform (.atMost n) m c := by
  have hR := lockstep_of_le hle
  cases c with
  | execute source final =>
      have heq := (hR.execute final source ⟨hm, rfl⟩).eq_of_fits h.of_map
      simp only [perform, heq]
  | run name =>
      have heq := (hR.runName Dictionary.lookupOutside name ⟨hm, rfl⟩).eq_of_fits h.of_map
      simp only [perform, heq]
  | executeWord handle =>
      have heq := Machine.executeWord_of_fits hle hm h.of_map
      simp only [perform, heq]
  | executeTop =>
      have heq := Act.perform_of_fits hle hm .top h.of_map
      simp only [Act.perform] at heq
      simp only [perform, heq]
  | repl answers => exact absurd rfl (hc answers)
  | _ => rfl

/-- What the host gets to see of a session: for each command the prompts, and the outcome with the
machine that it left. -/
def transcript (limit : Limit) : Machine → List Command → List (List String × Outcome Machine Reply)
  | _, [] => []
  | m, c :: cs => perform limit m c :: transcript limit (perform limit m c).2.state cs

/-- The limit is only a limit. Let no command of a session, which starts with no word running and
holds no conversation, end with a refusal to nest calls deeper. Then the same session with more room
has the same prompts, answers, faults with their traces, and machines, command by command. -/
theorem transcript_eq_of_le (hle : n ≤ n') (hm : m.calls = .empty) {cs : List Command}
    (hcs : ∀ c ∈ cs, ∀ answers, c ≠ .repl answers)
    (hroom : ∀ x ∈ transcript (.atMost n) m cs, ∀ p trace,
      x.2.fault? = some (.problem p trace) → p.kind ≠ .stackOverflow) :
    transcript (.atMost n') m cs = transcript (.atMost n) m cs := by
  induction cs generalizing m with
  | nil => rfl
  | cons c cs ih =>
      simp only [transcript] at hroom ⊢
      have hfits : (perform (.atMost n) m c).2.Fits := by
        intro f hf hoverflow
        cases f with
        | problem p trace =>
            obtain ⟨name, rfl⟩ := hoverflow
            exact hroom _ List.mem_cons_self _ trace hf rfl
        | _ => exact hoverflow
      have hnext : (perform (.atMost n) m c).2.state.calls = .empty :=
        (idle_perform (.atMost n) c hm).1
      rw [perform_of_fits hle hm (hcs c List.mem_cons_self) hfits]
      rw [ih hnext (fun b hb => hcs b (List.mem_cons_of_mem c hb))
        (fun x hx => hroom x (List.mem_cons_of_mem _ hx))]

/-- A session that fails two calls deep, for want of a value, fails the same way with more room than
the three calls it takes. -/
theorem transcript_eq_of_le_nested :
    ∃ cs : List Command, (∀ c ∈ cs, ∀ answers, c ≠ .repl answers) ∧
      (transcript (.atMost 3) .initial cs).map (fun x => x.2.fault?) =
        [none, some (.problem (.underflow (some "drop")) ["g", "f", "drop"]), none, none, none] ∧
      transcript (.atMost 9) .initial cs = transcript (.atMost 3) .initial cs := by
  obtain ⟨cs, hcs, hfaults⟩ : ∃ cs : List Command, (∀ c ∈ cs, ∀ answers, c ≠ .repl answers) ∧
      (transcript (.atMost 3) .initial cs).map (fun x => x.2.fault?) =
        [none, some (.problem (.underflow (some "drop")) ["g", "f", "drop"]), none, none,
          none] := by
    refine ⟨[.execute ": f drop ; : g f ;" true, .executeWord 24, .abort, .push [.int 1], .run "g"],
      ?_, ?_⟩
    · simp
    · cbv
  refine ⟨cs, hcs, hfaults, transcript_eq_of_le (by decide) rfl hcs ?_⟩
  intro x hx p trace hf
  have hmem := List.mem_map_of_mem (f := fun x => x.2.fault?) hx
  rw [hfaults, hf] at hmem
  obtain ⟨rfl, -⟩ : p = .underflow (some "drop") ∧ trace = ["g", "f", "drop"] := by
    simpa using hmem
  decide

end Session

end ThreadedForth
