import Mathlib
import ThreadedForth.Proofs.Execution
import ThreadedForth.Proofs.Room
/-!
# ThreadedForth.Proofs.Nesting

How deep a word nests is written in its code.

A call that is made by `execute` goes wherever the reference on the stack points. All others stand
in the code as references, and in a coherent dictionary these point at older words, so the nesting
of a word (`Dictionary.Nests`) is defined by recursion on its handle
(`Dictionary.Coherent.exists_nests`). It is the depth of the calls when the word is run, in both
directions:

* with that much room no call is refused, wherever the run ends (`evalCall_shallow`);
* with less room the run does not come to its end, because on the way there every call in the
  code is made (`Dictionary.Nests.le_of_evalCall`).

Neither direction minds that a run may finish the open word, as this changes no code
(`Dictionary.Finishes.word?_eq_some`).
-/

namespace ThreadedForth

/-- The deepest of the words that the code calls, if each of them nests as deep as `depth` says. -/
def deepest (depth : WordRef → Nat) : List Cell → Nat
  | [] => 0
  | .word r :: code => max (depth r) (deepest depth code)
  | _ :: code => deepest depth code

/-- The word at the handle nests so many calls, its own included. -/
inductive Dictionary.Nests (d : Dictionary) : Int → Nat → Prop where
  /-- A word nests one call more than the deepest of the words it calls. -/
  | word {h : Int} {w : Word} {depth : WordRef → Nat} : d.word? h = some w →
      (∀ r, .word r ∈ w.code → d.Nests r.handle (depth r)) →
      d.Nests h (1 + deepest depth w.code)

theorem deepest_le_iff {depth : WordRef → Nat} {code : List Cell} {n : Nat} :
    deepest depth code ≤ n ↔ ∀ r, .word r ∈ code → depth r ≤ n := by
  induction code with
  | nil => simp [deepest]
  | cons c code ih => cases c <;> simp [deepest, ih]

theorem le_deepest {depth : WordRef → Nat} {code : List Cell} {r : WordRef}
    (hr : .word r ∈ code) : depth r ≤ deepest depth code :=
  deepest_le_iff.1 (Nat.le_refl _) r hr

namespace Dictionary

variable {d d' : Dictionary} {h : Int} {k k' : Nat} {w : Word}

/-! ### The nesting of a word is well defined -/

theorem Nests.pos (hk : d.Nests h k) : 0 < k := by
  cases hk
  omega

theorem Nests.le (hk : d.Nests h k) : ∀ {k'}, d.Nests h k' → k ≤ k' := by
  induction hk with
  | @word h w depth hw _ ih =>
      intro k' hk'
      cases hk' with
      | @word _ w' depth' hw' hcalls' =>
          obtain rfl : w = w' := Option.some.inj (hw.symm.trans hw')
          have hle : deepest depth w.code ≤ deepest depth' w.code := by
            rw [deepest_le_iff]
            intro r hr
            exact (ih r hr (hcalls' r hr)).trans (le_deepest hr)
          omega

/-- Code refers to older words only, so the nesting of the entry at index `i` is found from the
nestings of the entries below it, and there are no more than `i` of these. -/
theorem Coherent.exists_nests {mode : Mode} (hd : d.Coherent mode) (i : Nat) :
    i < d.size → ∃ k ≤ i + 1, d.Nests i k := by
  induction i using Nat.strongRecOn with
  | ind i ih =>
      intro hi
      obtain ⟨w, hw⟩ : ∃ w, d.entries[i]? = some w := ⟨_, List.getElem?_eq_getElem hi⟩
      have hcalls : ∀ r, .word r ∈ w.code → ∃ k ≤ i, d.Nests r.handle k := by
        intro r hr
        obtain ⟨j, v, hv, rfl, hlt, -⟩ := hd.admits hw _ hr
        obtain ⟨k, hle, hk⟩ := ih j hlt (List.getElem?_eq_some_iff.1 hv.1).1
        exact ⟨k, by omega, hk⟩
      choose! depth hle hnests using hcalls
      have hdeepest : deepest depth w.code ≤ i := deepest_le_iff.2 hle
      refine ⟨1 + deepest depth w.code, by omega, .word ?_ hnests⟩
      rw [word?, itemAt?_natCast]
      exact hw

/-- Finishing the open word changes neither its name nor its code. -/
theorem Finishes.word?_eq_some (hd : d.Finishes d') (hw : d.word? h = some w) :
    ∃ w', d'.word? h = some w' ∧ w'.name = w.name ∧ w'.code = w.code := by
  obtain ⟨i, hi, hw⟩ := Option.bind_eq_some_iff.1 hw
  have hword? : d'.word? h = d'.entries[i]? := by
    have hsize : d'.entries.length = d.entries.length := hd.sameWords.1
    rw [word?, itemAt?, hsize, hi]
    rfl
  rcases hd.sameWords.2 hw with hw' | hw'
  · exact ⟨w, hword?.trans hw', rfl, rfl⟩
  · exact ⟨w.close, hword?.trans hw', rfl, rfl⟩

/-- A word that is there after the open word was finished was there before, with the same code. -/
theorem Finishes.exists_of_word? (hd : d.Finishes d') {w' : Word} (hw' : d'.word? h = some w') :
    ∃ w, d.word? h = some w ∧ w'.code = w.code := by
  obtain ⟨i, hi, -⟩ := Option.bind_eq_some_iff.1 hw'
  have hsize : d'.entries.length = d.entries.length := hd.sameWords.1
  have hlt : i < d.entries.length := hsize ▸ position?_lt hi
  have hw : d.word? h = some d.entries[i] := by
    rw [word?, itemAt?, ← hsize, hi]
    exact List.getElem?_eq_getElem hlt
  obtain ⟨v, hv, -, hcode⟩ := hd.word?_eq_some hw
  obtain rfl : v = w' := Option.some.inj (hv.symm.trans hw')
  exact ⟨_, hw, hcode⟩

end Dictionary

/-! ### Enough room -/

/-- The fault is not the refusal of a call. -/
def Fault.Shallow : Fault → Prop
  | problem p _ => p.kind ≠ .stackOverflow
  | _ => True

namespace Fault

variable {f : Fault}

theorem Plain.shallow (h : f.Plain) : f.Shallow := by
  cases f with
  | problem p trace => exact h.2.1
  | _ => trivial

theorem Shallow.within (h : f.Shallow) (names : List String) : (f.within names).Shallow := by
  cases f <;> exact h

end Fault

section

variable {d : Dictionary} {call : Int → State → Outcome State Unit}

/-- A cell that is not `execute` is refused no call if the call that it makes is not. -/
theorem evalCell_shallow {c : Cell} (hc : c ≠ .primitive (.system .execute))
    (hcall : ∀ r, c = .word r → ∀ s, d.Finishes s.dict →
      (call r.handle s).Ensures (fun t => d.Finishes t.dict) Fault.Shallow)
    {s : State} (hs : d.Finishes s.dict) :
    (evalCell call c s).Ensures (fun t => d.Finishes t.dict) Fault.Shallow := by
  cases c with
  | literal v => exact .ok hs
  | word r => exact hcall r rfl s hs
  | primitive p =>
      have hrun : (p.run s).Ensures (fun t => d.Finishes t.dict) Fault.Shallow :=
        ⟨hs.trans (p.finishes_run s), fun f hf => ((p.plain_run s).2 f hf).shallow⟩
      refine hrun.bind fun wanted t hp ht => ?_
      cases wanted with
      | none => exact .ok ht
      | some r =>
          obtain ⟨rfl, -⟩ := Primitive.run_eq_ok_some hp
          exact absurd rfl hc

theorem evalCode_shallow (code : List Cell) (hcode : .primitive (.system .execute) ∉ code)
    (hcall : ∀ r, .word r ∈ code → ∀ s, d.Finishes s.dict →
      (call r.handle s).Ensures (fun t => d.Finishes t.dict) Fault.Shallow) :
    ∀ {s : State}, d.Finishes s.dict →
      (evalCode call code s).Ensures (fun t => d.Finishes t.dict) Fault.Shallow := by
  induction code with
  | nil => exact fun hs => .ok hs
  | cons c code ih =>
      intro s hs
      obtain ⟨hc, hrest⟩ : c ≠ .primitive (.system .execute) ∧
          .primitive (.system .execute) ∉ code := by
        rw [List.mem_cons, not_or] at hcode
        exact ⟨Ne.symm hcode.1, hcode.2⟩
      have hcell := evalCell_shallow hc (fun r hr => hcall r (hr ▸ List.mem_cons_self)) hs
      refine hcell.bind fun _ t _ ht => ih hrest (fun r hr => ?_) ht
      exact hcall r (List.mem_cons_of_mem c hr)

end

/-- With room for its nesting, a word that does not use `execute` is refused no call. -/
theorem evalCall_shallow {d : Dictionary} {h : Int} {k : Nat} (limit : Limit) (hk : d.Nests h k) :
    ¬ d.Uses h (.system .execute) → ∀ {free : Nat}, k ≤ free → ∀ s : State, d.Finishes s.dict →
      (evalCall limit free h s).Ensures (fun t => d.Finishes t.dict) Fault.Shallow := by
  induction hk with
  | @word h w depth hw _ ih =>
      intro huses free hle s hs
      obtain ⟨free, rfl⟩ : ∃ n, free = n + 1 := ⟨free - 1, by omega⟩
      obtain ⟨w', hw', -, hcode⟩ := hs.word?_eq_some hw
      rw [evalCall_succ limit hw', hcode]
      refine (evalCode_shallow w.code (fun hmem => huses (.primitive hw hmem)) ?_ hs).mapFault
        fun f hf => hf.within _
      intro r hr
      have hdepth : depth r ≤ free := (le_deepest hr).trans (by omega)
      exact ih r hr (fun hr' => huses (.word hw hr hr')) hdepth

/-! ### Too little room -/

/-- Code that is run to its end makes every call it has. -/
theorem exists_call_of_evalCode {d : Dictionary} {call : Int → State → Outcome State Unit}
    (hcall : ∀ h (s : State), s.dict.Finishes (call h s).state.dict) {r : WordRef}
    {code : List Cell} (hr : .word r ∈ code) : ∀ {s t : State}, d.Finishes s.dict →
      evalCode call code s = .ok () t →
      ∃ s' t' : State, d.Finishes s'.dict ∧ call r.handle s' = .ok () t' := by
  induction code with
  | nil => exact absurd hr List.not_mem_nil
  | cons c code ih =>
      intro s t hs hok
      have hcell := effectBound_finishes.evalCell hcall c s
      simp only [evalCode] at hok
      cases hc : evalCell call c s with
      | fail f s' =>
          rw [hc] at hok
          cases hok
      | ok a s' =>
          rw [hc] at hok hcell
          rcases List.mem_cons.1 hr with rfl | hr
          · exact ⟨s, s', hs, hc⟩
          · exact ih hr (hs.trans hcell) hok

/-- A word that is run to its end had room for its nesting. -/
theorem Dictionary.Nests.le_of_evalCall {d : Dictionary} {h : Int} {k : Nat} {limit : Limit}
    (hk : d.Nests h k) : ∀ {free : Nat} {s t : State}, d.Finishes s.dict →
      evalCall limit free h s = .ok () t → k ≤ free := by
  induction hk with
  | @word h w depth hw _ ih =>
      intro free s t hs hok
      obtain ⟨w', hw', -, hcode⟩ := hs.word?_eq_some hw
      cases free with
      | zero =>
          rw [evalCall_zero limit hw'] at hok
          cases hok
      | succ free =>
          rw [evalCall_succ limit hw', hcode] at hok
          cases hcells : evalCode (evalCall limit free) w.code s with
          | fail f s' =>
              rw [hcells] at hok
              cases hok
          | ok a s' =>
              have hdeepest : deepest depth w.code ≤ free := by
                rw [deepest_le_iff]
                intro r hr
                obtain ⟨s₁, t₁, hs₁, hok₁⟩ := exists_call_of_evalCode
                  (effectBound_finishes.evalCall limit free) hr hs hcells
                exact ih r hr hs₁ hok₁
              omega

/-- A run that fails was refused a call, or fails just the same under any higher limit. -/
theorem Machine.refused_or_stable {n : Int} {m : Machine} {h : Int} {f : Fault}
    (hidle : m.calls = .empty) (hf : (m.executeWord (.atMost n) h).fault? = some f) :
    (∃ name trace, f = .problem (.tooDeep name) trace) ∨
      ∀ n' ≥ n, m.executeWord (.atMost n') h = m.executeWord (.atMost n) h := by
  by_cases hoverflow : f.Overflow
  · cases f with
    | problem p trace =>
        obtain ⟨name, rfl⟩ := hoverflow
        exact .inl ⟨name, trace, rfl⟩
    | _ => exact absurd hoverflow id
  · have hfits : (m.executeWord (.atMost n) h).Fits := by
      intro g hg
      obtain rfl : f = g := Option.some.inj (hf.symm.trans hg)
      exact hoverflow
    exact .inr fun n' hn' => Machine.executeWord_of_fits hn' hidle hfits

namespace Session

/-- Nesting decides about overflow. In a session driven by source, let an entry not use `execute`.
Then it has one nesting, which is at most its handle and one more. If the limit allows for it,
running the entry on any stack is refused no call. If it does not, the run fails: with such a
refusal, or with a fault that any higher limit leads to just the same. -/
theorem nesting_decides_overflow {n : Int} {m : Machine} {h : Nat} (hm : Reaches (.atMost n) m)
    (hh : h < m.state.dict.size) (huses : ¬ m.state.dict.Uses h (.system .execute)) :
    ∃ depth ≤ h + 1, (∀ k, m.state.dict.Nests h k ↔ k = depth) ∧
      ∀ (stack : Stack) (x : Outcome Machine Unit),
        x = (m.withState (m.state.withStack stack)).executeWord (.atMost n) h →
        (depth ≤ n → ∀ p trace, x.fault? = some (.problem p trace) → p.kind ≠ .stackOverflow) ∧
        (n < depth → ∃ f, x.fault? = some f ∧
          ((∃ name trace, f = .problem (.tooDeep name) trace) ∨
            ∀ n' ≥ n,
              (m.withState (m.state.withStack stack)).executeWord (.atMost n') h = x)) := by
  have hd := (Machine.Sound.of_reaches hm).state.coherent
  obtain ⟨depth, hle, hdepth⟩ := hd.exists_nests h hh
  refine ⟨depth, hle, fun k => ⟨fun hk => (hk.le hdepth).antisymm (hdepth.le hk), ?_⟩, ?_⟩
  · rintro rfl
    exact hdepth
  intro stack x hx
  have hidle : (m.withState (m.state.withStack stack)).calls = .empty :=
    (Machine.calls_of_reaches hm : m.calls = .empty)
  have hstart : m.state.dict.Finishes (m.state.withStack stack).dict := .refl _
  have hcall := hx.trans (Machine.executeWord_of_idle hidle h)
  rw [Machine.state_withState] at hcall
  refine ⟨fun hroom p trace hf => ?_, fun hroom => ?_⟩
  · have hfits : depth ≤ (Limit.atMost n).room := by
      simp only [Limit.room]
      omega
    have hshallow := evalCall_shallow (.atMost n) hdepth huses hfits _ hstart
    refine hshallow.2 (.problem p trace) ?_
    rw [hcall] at hf
    rwa [Outcome.fault?_mapState] at hf
  · cases hf : x.fault? with
    | none =>
        -- The run came to its end, so there was room for the nesting after all.
        rw [hcall, Outcome.fault?_mapState] at hf
        obtain ⟨_, t, ht⟩ := Outcome.exists_eq_ok hf
        have hfits : depth ≤ (Limit.atMost n).room := hdepth.le_of_evalCall hstart ht
        have hpos := hdepth.pos
        simp only [Limit.room] at hfits
        omega
    | some f =>
        rw [hx] at hf
        have hcases := Machine.refused_or_stable hidle hf
        rw [← hx] at hcases
        exact ⟨f, rfl, hcases⟩

/-- `quad` calls `sq`, which calls `dup`: three calls, of which a limit of 2 refuses the last. -/
theorem nesting_decides_overflow_quad :
    ∃ (m : Machine) (h : Nat), Reaches (.atMost 2) m ∧ h < m.state.dict.size ∧
      ¬ m.state.dict.Uses h (.system .execute) ∧ m.state.dict.Nests h 3 ∧
      ∃ f, ((m.withState (m.state.withStack [.int 5])).executeWord (.atMost 2) h).fault? = some f ∧
        ((∃ name trace, f = .problem (.tooDeep name) trace) ∨
          ∀ n' ≥ 2, (m.withState (m.state.withStack [.int 5])).executeWord (.atMost n') h =
            (m.withState (m.state.withStack [.int 5])).executeWord (.atMost 2) h) := by
  obtain ⟨m, hm, hsize, hquad, hsq, hdup, hmul⟩ : ∃ m : Machine, Reaches (.atMost 2) m ∧
      m.state.dict.size = 25 ∧
      m.state.dict.word? 24 =
        some ⟨"quad", 24, false, false, true, [.word ⟨23, "sq"⟩, .word ⟨23, "sq"⟩]⟩ ∧
      m.state.dict.word? 23 =
        some ⟨"sq", 23, false, false, true, [.word ⟨6, "dup"⟩, .word ⟨16, "*"⟩]⟩ ∧
      m.state.dict.word? 6 = some ⟨"dup", 6, false, false, true, [.primitive (.data .dup)]⟩ ∧
      m.state.dict.word? 16 = some ⟨"*", 16, false, false, true, [.primitive (.data .mul)]⟩ :=
    ⟨_, .perform (.execute ": sq dup * ; : quad sq sq ;" true) trivial .fresh, by cbv, by cbv,
      by cbv, by cbv, by cbv⟩
  have huses : ¬ m.state.dict.Uses 24 (.system .execute) := by
    simp [Dictionary.uses_iff hquad, Dictionary.uses_iff hsq, Dictionary.uses_iff hdup,
      Dictionary.uses_iff hmul, Cell.Uses]
  have hnests : m.state.dict.Nests 24 3 := by
    have hdup₁ : m.state.dict.Nests 6 (1 + deepest (fun _ => 0) _) := .word hdup (by simp)
    have hmul₁ : m.state.dict.Nests 16 (1 + deepest (fun _ => 0) _) := .word hmul (by simp)
    have hsq₂ : m.state.dict.Nests 23
        (1 + deepest (fun _ => 1) [.word ⟨6, "dup"⟩, .word ⟨16, "*"⟩]) := by
      refine .word hsq fun r hr => ?_
      obtain rfl | rfl : r = ⟨6, "dup"⟩ ∨ r = ⟨16, "*"⟩ := by simpa using hr
      · exact hdup₁
      · exact hmul₁
    show m.state.dict.Nests 24 (1 + deepest (fun _ => 2) [.word ⟨23, "sq"⟩, .word ⟨23, "sq"⟩])
    refine .word hquad fun r hr => ?_
    obtain rfl : r = ⟨23, "sq"⟩ := by simpa using hr
    exact hsq₂
  obtain ⟨depth, -, hdepth, hrun⟩ := nesting_decides_overflow hm (h := 24) (by omega) huses
  obtain rfl : 3 = depth := (hdepth 3).1 hnests
  exact ⟨m, 24, hm, by omega, huses, hnests, (hrun [.int 5] _ rfl).2 (by decide)⟩

end Session

end ThreadedForth
