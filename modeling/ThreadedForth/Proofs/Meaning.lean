import Mathlib
import ThreadedForth.Proofs.Compilation
import ThreadedForth.Proofs.Overflow
import ThreadedForth.Proofs.Simulation
/-!
# ThreadedForth.Proofs.Meaning

A definition means what its body means.

Two things are compared that go very different ways: the tokens of the body, interpreted one by
one, and the word they are compiled to, run as a whole one call deeper and with another
dictionary. They meet in the evaluation of the body's cells. Interpreting a token is evaluating
its cell (`Machine.interpretToken_eq_evalCell`), so interpreting all of them is evaluating the
code of the new word (`Machine.interpret_alike`); what the two dictionaries do not share is not
seen by words that use no system word (`simulation_of_data`), and the room the new word takes
away is not missed unless a call is refused (`evalCode_of_fits`).
-/

namespace ThreadedForth

/-- An integer, or the name of a word that is not immediate and uses no system word; but not the
end of a definition. -/
def Token.Plain (d : Dictionary) : Token → Prop
  | .int _ _ => True
  | .name text => text ≠ SystemWord.semicolon.name ∧ ∃ h w, d.lookup text = some h ∧
      d.entries[h]? = some w ∧ w.immediate = false ∧ ∀ p : SystemWord, ¬ d.Uses h (.system p)

/-- The token becomes the cell, which uses no system word. -/
structure Dictionary.Replays (d : Dictionary) (t : Token) (c : Cell) : Prop where
  /-- The token becomes the cell. -/
  compiles : d.CompilesTo t c
  /-- The cell refers to an older word. -/
  admits : d.Admits d.size c
  /-- The cell uses no system word. -/
  data : ∀ p, c.Uses d p → ∀ w, p ≠ .system w

theorem Dictionary.Coherent.replays {d : Dictionary} (hd : d.Coherent .interpret) {t : Token}
    (ht : t.Plain d) : ∃ c, d.Replays t c := by
  cases t with
  | int n text => exact ⟨_, .int n text, ⟨n, rfl⟩, fun p hp => absurd hp id⟩
  | name name =>
      obtain ⟨hname, h, w, hl, hw, himmediate, hdata⟩ := ht
      have hhandle : w.handle = h := hd.handle_eq hw
      have hfound : d.lookupOutside name = some h := by
        rw [lookupOutside_of_active_eq_none hd.active_eq_none]
        exact hl
      obtain ⟨v, hv, -⟩ := hd.offers_of_lookupOutside hfound
      obtain rfl : v = w := Option.some.inj (hv.1.symm.trans hw)
      have hlt : h < d.size := (List.getElem?_eq_some_iff.1 hw).1
      refine ⟨_, .name hname hl hw himmediate, ⟨h, v, hv, by rw [Word.ref, hhandle], hlt,
        himmediate⟩, fun p hp u hu => ?_⟩
      rw [hu, Cell.Uses, Word.handle_ref, hhandle] at hp
      exact hdata u hp

theorem Dictionary.Coherent.replays_all {d : Dictionary} (hd : d.Coherent .interpret)
    {ts : List Token} (hts : ∀ t ∈ ts, t.Plain d) : ∃ cs, List.Forall₂ d.Replays ts cs :=
  exists_forall₂ fun t ht => hd.replays (hts t ht)

namespace Machine

variable {limit : Limit} {m : Machine}

/-- Interpreting a token is evaluating the cell it would become. -/
theorem interpretToken_eq_evalCell (hidle : m.calls = .empty) {s : State}
    (hd : s.dict.Coherent .interpret) {t : Token} {c : Cell} (hc : s.dict.CompilesTo t c) :
    (m.withState s).interpretToken limit t =
      (evalCell (evalCall limit limit.room) c s).mapState m.withState := by
  have hidle' : (m.withState s).calls = .empty := hidle
  unfold interpretToken
  simp only [state_withState, hd.active_eq_none, Option.isSome_none, Bool.false_eq_true, if_false]
  cases hc with
  | int n text => rfl
  | @name name h w _ hl hw _ =>
      have hhandle : w.handle = h := hd.handle_eq hw
      simp only [runName, state_withState, hl]
      rw [executeWord_of_idle hidle', evalCell, Word.handle_ref, hhandle]
      rfl

/-! ### Interpreting in step -/

section

variable (limit : Limit) (s₀ t₀ : State) (hidle : m.calls = .empty) (hmode : s₀.mode = .interpret)
  (hd : s₀.dict.Coherent .interpret) (hkeep : s₀.dict.Keeps t₀.dict)
include hidle hmode hd hkeep

/-- A token is interpreted in step with the evaluation of its cell in another state, in which
the words of this one are the same. -/
theorem dispatch_alike {t : Token} {c : Cell} (hc : s₀.dict.Replays t c) {s u : State}
    (h : State.InStep s₀ t₀ s u) :
    Outcome.Alike (fun m' u' => ∃ s', m' = m.withState s' ∧ State.InStep s₀ t₀ s' u')
      ((m.withState s).dispatch limit t) (evalCell (evalCall limit limit.room) c u) := by
  have hsim := simulation_of_data (.refl s₀.dict) hkeep
  have hcell : Outcome.Alike (State.InStep s₀ t₀) (evalCell (evalCall limit limit.room) c s)
      (evalCell (evalCall limit limit.room) c u) :=
    hsim.evalCell (fun hw hP h => hsim.evalCall hd _ hw hP h) hc.admits hc.data h
  obtain ⟨stack, text, rfl, rfl⟩ := h
  have hmode' : (m.withState ((s₀.withStack stack).write text)).state.mode = .interpret := hmode
  have hd' : ((s₀.withStack stack).write text).dict.Coherent .interpret := hd
  rw [dispatch, hmode']
  show Outcome.Alike _ ((m.withState _).interpretToken limit t) _
  rw [interpretToken_eq_evalCell hidle hd' hc.compiles]
  exact hcell.mapState_left _

/-- Tokens are interpreted in step with the evaluation of their cells. The input, which drives
the one and is nothing to the other, is not compared. -/
theorem consume_alike {ts : List Token} {cs : List Cell}
    (h : List.Forall₂ s₀.dict.Replays ts cs) : ∀ {s u : State},
      State.InStep (s₀.withInput (some ts)) t₀ s u →
      Outcome.Alike (fun m' u' => ∃ s', m' = m.withState s' ∧
          ∃ input, State.InStep (s₀.withInput input) t₀ s' u')
        ((m.withState s).consume limit) (evalCode (evalCall limit limit.room) cs u) := by
  induction h with
  | nil =>
      rintro s u ⟨stack, text, rfl, rfl⟩
      rw [consume_of_pending_eq_zero rfl]
      exact .ok ⟨_, rfl, _, stack, text, rfl, rfl⟩
  | @cons t c ts cs hc _ ih =>
      rintro s u ⟨stack, text, rfl, rfl⟩
      -- Only the state that is interpreted in loses the token from its input.
      have hin : State.InStep (s₀.withInput (some ts)) t₀
          (((s₀.withInput (some ts)).withStack stack).write text)
          ((t₀.withStack stack).write text) := ⟨stack, text, rfl, rfl⟩
      rw [consume_cons rfl, evalCode]
      have hnext := dispatch_alike limit (s₀.withInput (some ts)) t₀ hidle hmode hd hkeep hc hin
      refine .bind hnext ?_ ?_
      · rintro _ u ⟨s, rfl, hin⟩
        exact ⟨s, rfl, _, hin⟩
      · rintro a _ u ⟨s, rfl, hin⟩
        exact ih hin

/-- A piece of source is interpreted in step with the evaluation of its cells; the input it was
interpreted from is gone afterwards. -/
theorem interpret_alike {ts : List Token} {cs : List Cell}
    (h : List.Forall₂ s₀.dict.Replays ts cs) (final : Bool) {s u : State}
    (hin : State.InStep s₀ t₀ s u) :
    Outcome.Alike (fun m' u' => ∃ s', m' = m.withState s' ∧ State.InStep s₀ t₀ s' u')
      ((m.withState s).interpret limit final ts) (evalCode (evalCall limit limit.room) cs u) := by
  obtain ⟨stack, text, rfl, rfl⟩ := hin
  have hin : State.InStep (s₀.withInput (some ts)) t₀
      (((s₀.withInput (some ts)).withStack stack).write text)
      ((t₀.withStack stack).write text) := ⟨stack, text, rfl, rfl⟩
  have hconsume := consume_alike limit s₀ t₀ hidle hmode hd hkeep h hin
  have hstart : (m.withState ((s₀.withStack stack).write text)).withState
      (((s₀.withStack stack).write text).withInput (some ts)) =
        m.withState (((s₀.withInput (some ts)).withStack stack).write text) := rfl
  unfold interpret
  simp only [state_withState, hstart]
  generalize (m.withState (((s₀.withInput (some ts)).withStack stack).write text)).consume limit =
    x, evalCode (evalCall limit limit.room) cs ((t₀.withStack stack).write text) = y at hconsume ⊢
  -- Putting the old input back undoes all that interpreting did to the input.
  have hrestore : ∀ {s' u'} {input}, State.InStep (s₀.withInput input) t₀ s' u' →
      State.InStep s₀ t₀ (s'.withInput s₀.input) u' := by
    rintro s' u' input ⟨stack', text', rfl, rfl⟩
    exact ⟨stack', text', rfl, rfl⟩
  cases hconsume with
  | fail hst =>
      obtain ⟨s', rfl, input, hin⟩ := hst
      exact .fail ⟨_, rfl, hrestore hin⟩
  | ok hst =>
      obtain ⟨s', rfl, input, hin⟩ := hst
      have hmode' : s'.mode = .interpret := by
        obtain ⟨stack', text', rfl, -⟩ := hin
        exact hmode
      simp only [state_withState, hmode']
      simpa using Outcome.Alike.ok ⟨_, rfl, hrestore hin⟩

end

end Machine

/-! ### Definitions and their bodies -/

/-- Running the word of a definition and interpreting its body end with the same stack, the same
output and the same fault, unless the run meets the refusal of a call; a trace has the name of
the word in front. -/
theorem Machine.Ready.run_defined {n : Int} {m : Machine} (h : m.Ready (.atMost n)) (name : String)
    {ts : List Token} {cs : List Cell} (hcs : List.Forall₂ m.state.dict.Replays ts cs)
    (stack : Stack) (final : Bool) {compiled direct : Outcome Machine Unit}
    (hcompiled : compiled = (m.withState ((m.state.defined name cs).withStack stack)).executeWord
      (.atMost n) m.state.dict.size)
    (hdirect : direct = (m.withState (m.state.withStack stack)).interpret (.atMost n) final ts)
    (hfits : compiled.Fits) :
    compiled.state.state.stack = direct.state.state.stack ∧
      compiled.state.state.out = direct.state.state.out ∧
      compiled.fault? = direct.fault?.map (.within [name]) := by
  obtain ⟨free, hfree⟩ : ∃ free, (Limit.atMost n).room = free + 1 :=
    Nat.exists_eq_succ_of_ne_zero (Nat.ne_of_gt h.room)
  have hd : m.state.dict.Coherent .interpret := h.mode_eq ▸ h.sound.state.coherent
  have hword : ((m.state.defined name cs).withStack stack).dict.word? m.state.dict.size =
      some { name, handle := m.state.dict.size, sealed := true, code := cs } := State.word?_defined
  -- The body is interpreted in step with the evaluation of the cells of the new word.
  have halike := interpret_alike (.atMost n) (m.state.withStack stack)
    ((m.state.defined name cs).withStack stack) h.idle h.mode_eq hd (Dictionary.keeps_append _ _ _)
    hcs final (.refl rfl)
  rw [← hdirect] at halike
  -- The new word evaluates them with the room that its own call has left.
  rw [executeWord_of_room h.idle hword hfree] at hcompiled
  rw [hcompiled] at hfits ⊢
  have hroom : evalCode (evalCall (.atMost n) (Limit.atMost n).room) cs
        ((m.state.defined name cs).withStack stack) =
      evalCode (evalCall (.atMost n) free) cs ((m.state.defined name cs).withStack stack) :=
    evalCode_of_fits (fun h s => evalCall_of_fits (by omega)) cs hfits.of_mapState.of_within
  rw [hroom] at halike
  generalize evalCode (evalCall (.atMost n) free) cs ((m.state.defined name cs).withStack stack) =
    x at halike ⊢
  cases halike with
  | ok hst =>
      obtain ⟨s, rfl, stack', text, rfl, rfl⟩ := hst
      exact ⟨rfl, rfl, rfl⟩
  | fail hst =>
      obtain ⟨s, rfl, stack', text, rfl, rfl⟩ := hst
      exact ⟨rfl, rfl, rfl⟩

/-- In a session driven by source, a definition made of plain tokens succeeds and touches
neither the stack nor the output. Running the new word on any stack ends with the stack, the
output and the fault of interpreting its body there, unless a call is refused; a trace has the
name of the new word in front. -/
theorem Session.compiled_eq_interpreted {n : Int} {m : Machine} {x : Token} {ts : List Token}
    {final : Bool} (hm : Reaches (.atMost n) m) (hn : 1 ≤ n) (hmode : m.state.mode = .interpret)
    (hcolon : m.state.dict.lookup SystemWord.colon.name =
      Dictionary.initial.lookup SystemWord.colon.name)
    (hts : ∀ t ∈ ts, t.Plain m.state.dict)
    (hhead : ∀ t, ts.head? = some t → t.isImmediateMarker = false) :
    ∃ m₁, m.interpret (.atMost n) final (definition x ts) = .ok () m₁ ∧
      m₁.state.stack = m.state.stack ∧ m₁.state.out = m.state.out ∧
      m₁.state.dict.lookup x.text = some m.state.dict.size ∧
      ∀ (stack : Stack) (final' : Bool) (compiled direct : Outcome Machine Unit),
        compiled = (m₁.withState (m₁.state.withStack stack)).executeWord (.atMost n)
          m.state.dict.size →
        direct = (m.withState (m.state.withStack stack)).interpret (.atMost n) final' ts →
        compiled.Fits →
          compiled.state.state.stack = direct.state.state.stack ∧
          compiled.state.state.out = direct.state.state.out ∧
          compiled.fault? = direct.fault?.map (.within [x.text]) := by
  have hroom : 0 < (Limit.atMost n).room := by
    simp only [Limit.room]
    omega
  have hready : m.Ready (.atMost n) :=
    ⟨.of_reaches hm, Machine.calls_of_reaches hm, hmode, hcolon, hroom⟩
  have hd : m.state.dict.Coherent .interpret := hmode ▸ hready.sound.state.coherent
  obtain ⟨cs, hcs⟩ := hd.replays_all hts
  have hdefine := hready.interpret_definition x (hcs.imp fun _ _ h => h.compiles) hhead final
  exact ⟨_, hdefine, rfl, rfl, State.lookup_defined, fun stack final' compiled direct =>
    hready.run_defined x.text hcs stack final'⟩

/-- The new `dup` squares, because the one in its body is the old one. -/
theorem Session.compiled_eq_interpreted_dup :
    Reaches (.atMost 9) .initial ∧
      (∀ t ∈ [Token.name "dup", .name "*"], t.Plain Dictionary.initial) ∧
      ∃ m₁, Machine.initial.interpret (.atMost 9) true
          (definition (.name "dup") [.name "dup", .name "*"]) = .ok () m₁ ∧
        ((m₁.withState (m₁.state.withStack [.int 7])).executeWord (.atMost 9)
          Dictionary.initial.size).fault? = none ∧
        ((m₁.withState (m₁.state.withStack [.int 7])).executeWord (.atMost 9)
          Dictionary.initial.size).state.state.stack = [.int 49] := by
  have hplain : ∀ t ∈ [Token.name "dup", .name "*"], t.Plain Dictionary.initial := by
    intro t ht
    simp only [List.mem_cons, List.not_mem_nil, or_false] at ht
    rcases ht with rfl | rfl
    · exact ⟨by decide, 6, _, by decide, rfl, rfl, fun p hp => by cases hp.eq_of_code rfl rfl⟩
    · exact ⟨by decide, 16, _, by decide, rfl, rfl, fun p hp => by cases hp.eq_of_code rfl rfl⟩
  have hhead : ∀ t, [Token.name "dup", .name "*"].head? = some t →
      t.isImmediateMarker = false := by
    rintro t ht
    obtain rfl := Option.some.inj ht
    decide
  obtain ⟨m₁, hdefine, -, -, -, hrun⟩ := compiled_eq_interpreted (n := 9) (x := .name "dup") .fresh
    (by decide) rfl rfl hplain hhead
  have hm₁ : m₁ = (Machine.initial.interpret (.atMost 9) true
      (definition (.name "dup") [.name "dup", .name "*"])).state := by
    rw [hdefine]
    rfl
  have hnone : ((m₁.withState (m₁.state.withStack [.int 7])).executeWord (.atMost 9)
      Dictionary.initial.size).fault? = none := by
    rw [hm₁]
    cbv
  refine ⟨.fresh, hplain, m₁, hdefine, hnone, ?_⟩
  refine (hrun [.int 7] true _ _ rfl rfl fun f hf => ?_).1.trans (by cbv)
  exact absurd (hnone.symm.trans hf) (by simp)

end ThreadedForth
