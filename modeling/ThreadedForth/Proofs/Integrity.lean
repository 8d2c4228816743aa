import Mathlib
import ThreadedForth.Proofs.Soundness
/-!
# ThreadedForth.Proofs.Integrity

What soundness means to a host, for every session driven by source and every moment of it.

* Definitions are kept in order (`Session.definition_discipline`): a word is open only while the
  interpreter is compiling, and then it is the newest one; every other word is finished. So the
  outer interpreter never meets an open word while interpreting, and never adds a cell to a
  finished one.
* References are kept intact (`Session.reference_integrity`): wherever one is found, it leads to
  a finished, visible word of its name. So nothing half-built is ever run, and no index ever
  points at nothing.

Both hold whatever failed before: they are about machines after any number of failures.
-/

namespace ThreadedForth

namespace Session

variable {limit : Limit} {m m' : Machine} {c : Command}

/-- At every moment of a session driven by source, an open word is the newest entry, neither
finished nor hidden, and the interpreter is compiling; all other entries are finished, and every
entry has its index for a handle. So while interpreting there is no open word to be finished
first, the open word always takes a cell, and nothing that is done is refused because a word was
finished already. -/
theorem definition_discipline (h : Reaches limit m) (hc : c.SourceDriven)
    (hd : During limit (.command c) m m') :
    (∀ k, m'.state.dict.active = some k → m'.state.mode = .compile ∧ k + 1 = m'.state.dict.size ∧
      ∃ w, m'.state.dict.entries[k]? = some w ∧ w.sealed = false ∧ w.hidden = false) ∧
    (∀ i (w : Word), m'.state.dict.entries[i]? = some w → m'.state.dict.active ≠ some i →
      w.sealed = true) ∧
    (∀ i (w : Word), m'.state.dict.entries[i]? = some w → w.handle = i) ∧
    (m'.state.mode = .interpret → m'.state.dict.active.isSome = false) ∧
    (∀ k cell, m'.state.dict.active = some k → (m'.extend k cell).fault? = none) ∧
    (∀ t name trace,
      (m'.dispatch limit t).fault? ≠ some (.problem (.alreadyFinished name) trace)) ∧
    ∀ name trace, (perform limit m c).2.fault? ≠ some (.problem (.alreadyFinished name) trace) := by
  have hm : m.Sound .initial := .of_reaches h
  have hm' : m'.Sound .initial := hm.of_during (a := .command c) hc hd
  have hcoherent := hm'.state.coherent
  have hinvariant := Machine.sound_invariant limit .initial
  refine ⟨fun k hk => hcoherent.of_active hk, fun i w hw hne => hcoherent.sealed_of_ne hw hne,
    fun i w hw => hcoherent.handle_eq hw, fun hmode => ?_, fun k cell hk => ?_,
    fun t name trace hf => ?_, fun name trace hf => ?_⟩
  · rw [hmode] at hcoherent
    simp [hcoherent.active_eq_none]
  · simp [Machine.extend, hcoherent.extend_eq_ok hk]
  · exact (hinvariant.dispatch t hm').2 _ hf name rfl
  · exact (hinvariant.perform hc hm).2 _ hf name rfl

/-- A line that fails inside a definition leaves its word open. -/
theorem definition_discipline_unfinished :
    ∃ m m' : Machine, Reaches (.atMost 9) m ∧
      (Command.execute ": cube dup sq nonsense" false).SourceDriven ∧
      During (.atMost 9) (.command (.execute ": cube dup sq nonsense" false)) m m' ∧
      m'.state.dict.active = some 24 ∧ m'.state.mode = .compile ∧ 24 + 1 = m'.state.dict.size := by
  have hreaches : Reaches (.atMost 9)
      (perform (.atMost 9) .initial (.execute ": sq dup * ;" true)).2.state :=
    .perform (.execute ": sq dup * ;" true) trivial .fresh
  have hactive : (perform (.atMost 9)
      (perform (.atMost 9) .initial (.execute ": sq dup * ;" true)).2.state
      (.execute ": cube dup sq nonsense" false)).2.state.state.dict.active = some 24 := by
    cbv
  have hfacts := definition_discipline (c := .execute ": cube dup sq nonsense" false) hreaches
    trivial (.finish _ _)
  obtain ⟨hmode, hlast, -⟩ := hfacts.1 24 hactive
  exact ⟨_, _, hreaches, trivial, .finish _ _, hactive, hmode, hlast⟩

/-- At every moment of a session driven by source, a reference, on the stack or in code, leads to
an entry that is finished, visible and of the reference's name; one that code calls leads to an
older entry, which is not immediate; and every word that is running is finished and visible. So
a command succeeds, or fails with a problem of the program or with a number too long to be
written. -/
theorem reference_integrity {n : Int} (h : Reaches (.atMost n) m) (hc : c.SourceDriven)
    (hd : During (.atMost n) (.command c) m m') :
    (∀ r, Value.ref r ∈ m'.state.stack → m'.state.dict.Denotes r) ∧
    (∀ i (w : Word), m'.state.dict.entries[i]? = some w →
      (∀ r, Cell.literal (.ref r) ∈ w.code → m'.state.dict.Denotes r) ∧
      ∀ r, Cell.word r ∈ w.code → m'.state.dict.Denotes r ∧
        ∃ (k : Nat) (v : Word), r.handle = k ∧ k < i ∧ m'.state.dict.entries[k]? = some v ∧
          v.immediate = false) ∧
    (∀ f ∈ m'.calls.frames, m'.state.dict.Runs f) ∧
    ∀ f, (perform (.atMost n) m c).2.fault? = some f →
      (∃ p trace, f = .problem p trace) ∨ f = .digitLimit := by
  have hm : m.Sound .initial := .of_reaches h
  have hm' : m'.Sound .initial := hm.of_during (a := .command c) hc hd
  refine ⟨hm'.state.denotes, fun i w hw => ⟨fun r hr => ?_, fun r hr => ?_⟩, hm'.frames,
    fun f hf => ?_⟩
  · obtain ⟨k, hk⟩ := hm'.state.coherent.admits hw _ hr
    cases hk
  · obtain ⟨k, v, hv, rfl, hlt, himmediate⟩ := hm'.state.coherent.admits hw _ hr
    exact ⟨⟨k, v, hv, rfl⟩, k, v, rfl, hlt, hv.1, himmediate⟩
  · have hforeseen := ((Machine.sound_invariant (.atMost n) .initial).perform hc hm).2 f hf
    cases f with
    | problem p trace => exact .inl ⟨p, trace, rfl⟩
    | digitLimit => exact .inr rfl
    | badIndex why => exact absurd hforeseen id
    | blankLimit => exact absurd hforeseen (by simp [Fault.Foreseen])

/-- A reference that was taken before a line failed still leads to its word. -/
theorem reference_integrity_ticked :
    ∃ m m' : Machine, Reaches (.atMost 9) m ∧
      (Command.execute "' one nonsense" true).SourceDriven ∧
      During (.atMost 9) (.command (.execute "' one nonsense" true)) m m' ∧
      m'.state.stack = [.ref ⟨23, "one"⟩] ∧ m'.state.dict.Denotes ⟨23, "one"⟩ := by
  have hreaches : Reaches (.atMost 9)
      (perform (.atMost 9) .initial (.execute ": one 1 ;" true)).2.state :=
    .perform (.execute ": one 1 ;" true) trivial .fresh
  have hstack : (perform (.atMost 9)
      (perform (.atMost 9) .initial (.execute ": one 1 ;" true)).2.state
      (.execute "' one nonsense" true)).2.state.state.stack = [.ref ⟨23, "one"⟩] := by
    cbv
  have hfacts := reference_integrity (n := 9) (c := .execute "' one nonsense" true) hreaches trivial
    (.finish _ _)
  refine ⟨_, _, hreaches, trivial, .finish _ _, hstack, hfacts.1 ⟨23, "one"⟩ ?_⟩
  rw [Activity.finish, hstack]
  exact List.mem_singleton_self _

end Session

end ThreadedForth
