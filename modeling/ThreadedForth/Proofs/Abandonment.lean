import Mathlib
import ThreadedForth.Proofs.Forgetting
/-!
# ThreadedForth.Proofs.Abandonment

An abandoned definition leaves no trace.

Abandoning a definition hides its entry and keeps it, so that later words have higher numbers than
they would have otherwise. That is all anyone could notice. The session after `abort` and the one in
which the open word is taken out altogether are followed side by side, token by token, line by line
and command by command; in the end they differ in the hidden entry, in the numbers after it, and in
nothing else.

What has to be known of the first of the two machines (`Machine.Buries`) is kept by every act, so it
need not be shown again on the way: for each function it is enough to compare what it does to both
(`Machine.Without`), and `Outcome.Alike.and_left` puts the invariant back (`Machine.Parallel`).
-/

namespace ThreadedForth

namespace Machine

variable {limit : Limit} {k i : Nat} {w : Word} {m n : Machine} {log : List Event}

/-- The machine without the entry at `k`, and with a log of its own. -/
def forget (k : Nat) (log : List Event) (m : Machine) : Machine :=
  m.withState (m.state.forget k log)

/-- `n` is `m` without the entry at `k`, but for the log. -/
def Without (k : Nat) (m n : Machine) : Prop := ∃ log, n = m.forget k log

/-- No word is running, the machine is sound, and the entry at `k` is finished and hidden. -/
structure Buries (k : Nat) (m : Machine) : Prop where
  /-- No word is running. -/
  idle : m.calls = .empty
  /-- The machine is sound. -/
  sound : m.Sound .initial
  /-- The entry is finished and hidden. -/
  buries : m.state.dict.Buries k

/-- An entry that is buried once stays buried. -/
theorem buries_invariant (limit : Limit) (k : Nat) :
    Invariant limit (Buries k) (Fault.Foreseen limit) where
  act := by
    intro a m ha h
    have hsound := (sound_invariant limit .initial).act a ha h.sound
    have hidle := (idle_invariant limit).act a ha h.idle
    exact ⟨⟨hidle.1, hsound.1, h.buries.mono (retains_act ha h.sound)⟩, hsound.2⟩
  plain := fun hf => hf.foreseen

/-- The two machines go on side by side. -/
def Parallel (k : Nat) (m n : Machine) : Prop := m.Buries k ∧ Without k m n

/-! ### Tokens -/

namespace Buries

theorem coherent (h : m.Buries k) : m.state.dict.Coherent m.state.mode := h.sound.state.coherent

/-- A word that the dictionary still offers runs the same way on both sides, under its number there.
-/
theorem executeWord (h : m.Buries k) (hw : m.state.dict.Offers i w) (log : List Event) :
    Outcome.Alike (Without k) (m.executeWord limit i)
      ((m.forget k log).executeWord limit (lower k i)) := by
  have hidle : (m.forget k log).calls = .empty := h.idle
  have heval := evalCall_parallel limit limit.room hw ⟨h.sound.state, h.buries, log, rfl⟩
  rw [executeWord_of_idle h.idle, executeWord_of_idle hidle]
  refine heval.mapState fun hst => ?_
  obtain ⟨log', rfl⟩ := hst.2.without
  exact ⟨log', rfl⟩

/-- A name means the same word on both sides, or none on either. -/
theorem runName (h : m.Buries k) {lookup : Dictionary → String → Option Nat} {name : String}
    (hlookup : lookup (m.state.dict.without k) name = (lookup m.state.dict name).map (lower k))
    (hoffers : ∀ i, lookup m.state.dict name = some i → ∃ w, m.state.dict.Offers i w)
    (log : List Event) :
    Outcome.Alike (Without k) (m.runName limit lookup name)
      ((m.forget k log).runName limit lookup name) := by
  have hlookup' : lookup (m.forget k log).state.dict name =
      (lookup m.state.dict name).map (lower k) := hlookup
  unfold Machine.runName
  rw [hlookup']
  cases hl : lookup m.state.dict name with
  | none => exact .fail ⟨log, rfl⟩
  | some i =>
      obtain ⟨w, hw⟩ := hoffers i hl
      exact h.executeWord hw log

/-- A token that is interpreted does the same on both sides, also if it first finishes a definition.
-/
theorem interpretToken (h : m.Buries k) (hmode : m.state.mode = .interpret) (t : Token)
    (log : List Event) :
    Outcome.Alike (Without k) (m.interpretToken limit t)
      ((m.forget k log).interpretToken limit t) := by
  have hd := h.coherent
  rw [hmode] at hd
  have hactive := hd.active_eq_none
  have hactive' : (m.forget k log).state.dict.active = none := by
    simp [forget, State.forget, Dictionary.without, hactive]
  unfold Machine.interpretToken
  simp only [hactive, hactive', Option.isSome_none, Bool.false_eq_true, if_false]
  cases t with
  | int n text => exact .ok ⟨log, rfl⟩
  | name name =>
      refine h.runName (h.buries.lookup_without name) (fun i hl => ?_) log
      rw [← Dictionary.lookupOutside_of_active_eq_none hactive] at hl
      obtain ⟨w, hw, -⟩ := hd.offers_of_lookupOutside hl
      exact ⟨w, hw⟩

/-- A new word gets its name on both sides, and on one of them a number less by one. -/
theorem startDefinition (h : m.Buries k) (t : Token) (log : List Event) :
    Without k (m.startDefinition t) ((m.forget k log).startDefinition t) := by
  have hmark : ((m.state.dict.define t.text).modify m.state.dict.size .markImmediate).without k =
      ((m.state.dict.define t.text).without k).modify (m.state.dict.without k).size
        .markImmediate := by
    rw [← h.buries.lower_size]
    exact Dictionary.modify_without (Nat.ne_of_gt h.buries.lt_size) fun _ => rfl
  have hdefine : (m.forget k log).state.define t.text = (m.state.define t.text).forget k
      (.defining t.text (m.state.dict.without k).size :: log) := by
    simp only [forget, State.define, State.forget, State.record, h.buries.define_without,
      state_withState]
  refine ⟨.defining t.text (m.state.dict.without k).size :: log, ?_⟩
  unfold Machine.startDefinition
  rw [hdefine]
  simp only [State.input_forget]
  split
  next next rest _ =>
    split
    · simp only [forget, withState, State.forget, State.define, State.record, hmark]
    · rfl
  · rfl

theorem extend (h : m.Buries k) (hi : m.state.dict.active = some i) (c : Cell)
    (log : List Event) :
    Outcome.Alike (Without k) (m.extend i c)
      ((m.forget k log).extend (lower k i) (c.lower k)) := by
  have hextend : (m.forget k log).state.dict.extend (lower k i) (c.lower k) =
      .ok () ((m.state.dict.modify i (·.push c)).without k) :=
    h.buries.extend_without h.coherent hi c
  unfold Machine.extend
  rw [hextend, h.coherent.extend_eq_ok hi]
  exact .ok ⟨log, rfl⟩

theorem endDefinition (h : m.Buries k) (log : List Event) :
    Outcome.Alike (Without k) (m.state.endDefinition.mapState m.withState)
      ((m.forget k log).state.endDefinition.mapState (m.forget k log).withState) := by
  obtain ⟨log', hend⟩ := State.endDefinition_forget h.coherent h.buries log
  have hend' : (m.forget k log).state.endDefinition =
      m.state.endDefinition.mapState (State.forget k log') := hend
  rw [hend']
  cases m.state.endDefinition with
  | ok a s => exact .ok ⟨log', rfl⟩
  | fail f s => exact .fail ⟨log', rfl⟩

/-- A name that is compiled is immediate on both sides or on neither, and the cell it adds is
renumbered. -/
theorem compileName (h : m.Buries k) (hi : m.state.dict.active = some i) (name : String)
    (log : List Event) :
    Outcome.Alike (Without k) (m.compileName limit i name)
      ((m.forget k log).compileName limit (lower k i) name) := by
  have hlookup : (m.forget k log).state.dict.lookupOutside name =
      (m.state.dict.lookupOutside name).map (lower k) :=
    h.buries.lookupOutside_without h.coherent name
  unfold Machine.compileName
  rw [hlookup]
  cases hl : m.state.dict.lookupOutside name with
  | none => exact .fail ⟨log, rfl⟩
  | some j =>
      obtain ⟨w, hw, -⟩ := h.coherent.offers_of_lookupOutside hl
      have hw' : (m.forget k log).state.dict.entries[lower k j]? = some (w.lower k) := by
        show (m.state.dict.without k).entries[lower k j]? = _
        rw [Dictionary.entries_without (h.buries.ne_of_offers hw), hw.1]
        rfl
      simp only [Option.map_some, hw.1, hw', Word.immediate_lower, Word.ref_lower]
      by_cases himmediate : w.immediate
      · simp only [himmediate, if_true]
        have hrecord : ∀ e, (m.withState (m.state.record e)).Buries k := fun e =>
          ((buries_invariant limit k).act (.record e) trivial h).1
        exact (hrecord _).executeWord hw _
      · simp only [himmediate]
        exact h.extend hi (.word w.ref) log

/-- In each mode, a token does the same on both sides. -/
theorem dispatch (h : m.Buries k) (t : Token) (log : List Event) :
    Outcome.Alike (Without k) (m.dispatch limit t) ((m.forget k log).dispatch limit t) := by
  have hmode : (m.forget k log).state.mode = m.state.mode := rfl
  have hactive : (m.forget k log).state.dict.active = m.state.dict.active.map (lower k) := rfl
  unfold Machine.dispatch
  rw [hmode, hactive]
  cases hm : m.state.mode with
  | interpret => exact h.interpretToken hm t log
  | compile =>
      cases hi : m.state.dict.active with
      | none => exact .ok (h.startDefinition t log)
      | some i =>
          cases t with
          | int n text => exact h.extend hi (.literal (.int n)) log
          | name name =>
              simp only [Option.map_some, Machine.compileToken]
              split
              · exact h.endDefinition log
              · exact h.compileName hi name log

end Buries

/-! ### Source -/

/-- The two machines go on side by side over one token. -/
theorem Parallel.dispatch (h : Parallel k m n) (t : Token) :
    Outcome.Alike (Parallel k) (m.dispatch limit t) (n.dispatch limit t) := by
  obtain ⟨hm, log, rfl⟩ := h
  exact (hm.dispatch t log).and_left ((buries_invariant limit k).dispatch t hm).1

theorem Parallel.feed (h : Parallel k m n) (input : Option (List Token)) :
    Parallel k (m.withState (m.state.withInput input)) (n.withState (n.state.withInput input)) := by
  obtain ⟨hm, log, rfl⟩ := h
  exact ⟨⟨hm.idle, hm.sound.withState (hm.sound.state.withInput input), hm.buries⟩, log, rfl⟩

/-- The two machines go on side by side over all unread tokens, of which they have the same. -/
theorem Parallel.consume (limit : Limit) (m : Machine) : ∀ {n : Machine}, Parallel k m n →
    Outcome.Alike (Parallel k) (m.consume limit) (n.consume limit) := by
  induction m using consume_induction limit with
  | done m hpending =>
      intro n h
      obtain ⟨log, hn⟩ := h.2
      have hpending' : n.state.pending = 0 := by
        rw [hn]
        exact hpending
      rw [consume_of_pending_eq_zero hpending, consume_of_pending_eq_zero hpending']
      exact .ok h
  | token m t ts hinput ih =>
      intro n h
      have hinput' : n.state.input = some (t :: ts) := by
        obtain ⟨log, rfl⟩ := h.2
        exact hinput
      rw [consume_cons hinput, consume_cons hinput']
      exact ((h.feed (some ts)).dispatch t).bind_eq (fun hst => hst) fun _ _ _ hd hst =>
        ih _ hd hst

namespace Parallel

theorem write (h : Parallel k m n) (text : String) : Parallel k (m.write text) (n.write text) := by
  obtain ⟨hm, log, rfl⟩ := h
  exact ⟨⟨hm.idle, hm.sound.withState (hm.sound.state.write text), hm.buries⟩, log, rfl⟩

/-- Both sides give up the definitions they have open, and these are the same. -/
theorem abort (h : Parallel k m n) : Parallel k m.abort n.abort := by
  obtain ⟨hm, log, rfl⟩ := h
  refine ⟨(buries_invariant (.atMost 0) k).abort hm, ?_⟩
  have hd : (m.state.withStack []).dict.Coherent (m.state.withStack []).mode := hm.coherent
  obtain ⟨log', habandon⟩ := State.abandon_forget hd hm.buries log
  have habandon' : ((m.forget k log).state.withStack []).abandon =
      (m.state.withStack []).abandon.forget k log' := habandon
  refine ⟨log', ?_⟩
  unfold Machine.abort
  rw [habandon']
  rfl

theorem mode_eq (h : Parallel k m n) : n.state.mode = m.state.mode := by
  obtain ⟨-, log, rfl⟩ := h
  rfl

/-- The two machines have the same definition open, if any, though its number may differ. -/
theorem openName?_eq (h : Parallel k m n) : n.openName? = m.openName? := by
  obtain ⟨hm, log, rfl⟩ := h
  have hword : (m.forget k log).state.dict.activeWord? =
      m.state.dict.activeWord?.map (Word.lower k) := hm.buries.activeWord?_without hm.coherent
  rw [openName?, hword, Option.map_map]
  rfl

/-- The two machines go on side by side over a list of tokens, and report a truncated definition
alike. -/
theorem interpret (limit : Limit) (h : Parallel k m n) (final : Bool) (tokens : List Token) :
    Outcome.Alike (Parallel k) (m.interpret limit final tokens)
      (n.interpret limit final tokens) := by
  have hconsume := Parallel.consume limit _ (h.feed (some tokens))
  have hinput : n.state.input = m.state.input := by
    obtain ⟨-, log, rfl⟩ := h
    rfl
  unfold Machine.interpret
  rw [hinput]
  generalize (m.withState (m.state.withInput (some tokens))).consume limit = x,
    (n.withState (n.state.withInput (some tokens))).consume limit = y at hconsume ⊢
  cases hconsume with
  | fail hst => exact .fail (hst.feed _)
  | ok hst =>
      simp only [hst.mode_eq, hst.openName?_eq]
      split
      · exact .fail (hst.feed _)
      · exact .ok (hst.feed _)

theorem execute (limit : Limit) (h : Parallel k m n) (final : Bool) (source : String) :
    Outcome.Alike (Parallel k) (m.execute limit final source) (n.execute limit final source) :=
  h.interpret limit final (tokenize source)

/-! ### Conversations -/

/-- The two turns end in the same way. -/
inductive Turns (k : Nat) : Repl.Turn → Repl.Turn → Prop where
  | next {m n : Machine} : Parallel k m n → Turns k (.next m) (.next n)
  | bye {m n : Machine} : Parallel k m n → Turns k (.bye m) (.bye n)
  | crash {f : Fault} {m n : Machine} : Parallel k m n → Turns k (.crash f m) (.crash f n)

/-- The two machines take the same turn on an answer of the user. -/
theorem react (limit : Limit) (h : Parallel k m n) (a : Repl.Answer) :
    Turns k (a.react limit m) (a.react limit n) := by
  cases a with
  | interrupt => exact .next (h.write _).abort
  | line text =>
      have hexecute := h.execute limit false text
      simp only [Repl.Answer.react, Repl.turn]
      split
      · exact .bye h
      generalize m.execute limit false text = x, n.execute limit false text = y at hexecute ⊢
      cases hexecute with
      | @fail f m' n' hst =>
          cases f with
          | problem p trace => exact .next (hst.write _).abort
          | _ => exact .crash hst
      | @ok a m' n' hst =>
          simp only [hst.mode_eq]
          cases m'.state.mode with
          | interpret => exact .next (hst.write _)
          | compile => exact .next hst

theorem prompt_eq (h : Parallel k m n) : Repl.prompt n = Repl.prompt m := by
  rw [Repl.prompt, h.mode_eq]
  rfl

/-- The two machines hold the same conversation, with the same prompts. -/
theorem converse (limit : Limit) (answers : List Repl.Answer) : ∀ {m n : Machine}, Parallel k m n →
    (Repl.converse limit false answers n).1 = (Repl.converse limit false answers m).1 ∧
      Outcome.Alike (Parallel k) (Repl.converse limit false answers m).2
        (Repl.converse limit false answers n).2 := by
  induction answers with
  | nil =>
      intro m n h
      simp only [Repl.converse, h.prompt_eq]
      exact ⟨trivial, .ok h⟩
  | cons a rest ih =>
      intro m n h
      have hreact := h.react limit a
      simp only [Repl.converse, h.prompt_eq, Bool.false_eq_true, if_false]
      generalize a.react limit m = x, a.react limit n = y at hreact ⊢
      cases hreact with
      | next hst =>
          obtain ⟨hprompts, halike⟩ := ih hst
          exact ⟨congrArg (Repl.prompt m :: ·) hprompts, halike⟩
      | bye hst => exact ⟨rfl, .ok hst⟩
      | crash hst => exact ⟨rfl, .fail hst⟩

end Parallel

end Machine

/-! ### The beginning -/

/-- Entries below the one that is taken out refer to nothing above themselves, so they stay as they
are. -/
theorem Dictionary.Coherent.lower_eq {d : Dictionary} {mode : Mode} {k i : Nat} {w : Word}
    (hd : d.Coherent mode) (hw : d.entries[i]? = some w) (hi : i < k) : w.lower k = w := by
  have hcode : ∀ c ∈ w.code, Cell.lower k c = c := by
    intro c hc
    have hadmits := hd.admits hw c hc
    cases c with
    | primitive p => rfl
    | literal v =>
        obtain ⟨n, rfl⟩ := hadmits
        rfl
    | word r =>
        obtain ⟨j, v, -, rfl, hj, -⟩ := hadmits
        rw [Cell.lower, WordRef.lower_natCast, lower_of_lt (Nat.lt_trans hj hi)]
  have hhandle : lower k w.handle = w.handle := by
    rw [hd.handle_eq hw, lower_of_lt hi]
  rw [Word.lower, hhandle, List.map_congr_left hcode, List.map_id']

/-- Burying the last entry and taking it out is taking it out, and nothing is renumbered. -/
theorem Dictionary.Coherent.without_abandon {d : Dictionary} {mode : Mode} {k : Nat}
    (hd : d.Coherent mode) (hk : d.active = some k) :
    d.abandon.without k = ⟨d.entries.eraseIdx k, none⟩ := by
  have hlast : k + 1 = d.entries.length := (hd.of_active hk).2.1
  have herase : (d.entries.modify k Word.bury).eraseIdx k = d.entries.eraseIdx k := by
    apply List.ext_getElem?
    intro i
    simp only [List.getElem?_eraseIdx, List.getElem?_modify]
    grind
  have hlower : ∀ w ∈ d.entries.eraseIdx k, Word.lower k w = w := by
    intro w hw
    obtain ⟨i, hi⟩ := List.mem_iff_getElem?.1 hw
    have hlt : i < k := by
      have hlength := (List.getElem?_eq_some_iff.1 hi).1
      rw [List.length_eraseIdx_of_lt (by omega)] at hlength
      omega
    rw [List.getElem?_eraseIdx, if_pos hlt] at hi
    exact hd.lower_eq hi hlt
  simp only [Dictionary.abandon, hk, without, entries_modify, herase]
  rw [List.map_congr_left hlower, List.map_id']
  rfl

/-- The machine with an empty stack and not compiling, the open word taken out of the dictionary. -/
def Machine.discard (k : Nat) (m : Machine) : Machine :=
  m.withState { m.state with
    stack := []
    mode := .interpret
    dict := ⟨m.state.dict.entries.eraseIdx k, none⟩ }

/-- Giving up the open word by `abort`, and taking it out of the dictionary, is where the two sides
begin. -/
theorem Machine.parallel_discard {m : Machine} {k : Nat} (h : m.Sound .initial)
    (hidle : m.calls = .empty) (hk : m.state.dict.active = some k) :
    Parallel k m.abort (m.discard k) := by
  have hdict : m.abort.state.dict = m.state.dict.abandon := (m.state.withStack []).dict_abandon
  obtain ⟨-, -, w, hw, -⟩ := h.state.coherent.of_active hk
  refine ⟨⟨rfl, h.abort, w.bury, ?_, rfl, rfl⟩, m.state.log, ?_⟩
  · rw [hdict, Dictionary.abandon, hk]
    show (m.state.dict.entries.modify k Word.bury)[k]? = some w.bury
    rw [List.getElem?_modify_eq, hw]
    rfl
  · obtain ⟨log, habandon⟩ := (m.state.withStack []).abandon_eq
    have hwithout : (m.state.withStack []).dict.abandon.without k =
        ⟨m.state.dict.entries.eraseIdx k, none⟩ := h.state.coherent.without_abandon hk
    unfold abort
    rw [habandon]
    simp only [discard, forget, withState, State.forget, hwithout, hidle]
    rfl

/-! ### Commands -/

/-- The answer after the entry at `k` is taken out. -/
def Reply.lower (k : Nat) : Reply → Reply
  | .handle? h => .handle? (h.map (ThreadedForth.lower k))
  | .value v => .value (v.lower k)
  | .values vs => .values (vs.map (Value.lower k))
  | .word? w => .word? (w.map (Word.lower k))
  | .words ws => .words (ws.map (Word.lower k))
  | r => r

namespace Session

open Machine (Parallel Without)

variable {limit : Limit} {k : Nat} {m n : Machine}

theorem alike_nothing {R : Machine → Machine → Prop} {x y : Outcome Machine Unit}
    (h : Outcome.Alike R x y) :
    Outcome.Alike R ((x.map fun _ => Reply.nothing).map (Reply.lower k))
      (y.map fun _ => Reply.nothing) := by
  cases h with
  | ok hst => exact .ok hst
  | fail hst => exact .fail hst

/-- A reference on the stack leads to the same word on both sides. -/
theorem executeTop_without (h : m.Buries k) (log : List Event) :
    Outcome.Alike (Without k) (executeTop limit m) (executeTop limit (m.forget k log)) := by
  have hpop : (m.forget k log).state.popRef =
      (m.state.popRef.map (WordRef.lower k)).mapState (State.forget k log) := State.popRef_forget
  unfold executeTop
  rw [hpop]
  cases hr : m.state.popRef with
  | fail f s => exact .fail ⟨log, rfl⟩
  | ok r s =>
      have hs := h.sound.state.popRef
      rw [hr] at hs
      obtain ⟨i, w, hw, rfl⟩ := h.sound.denotes_of_popRef hr
      have hnext : (m.withState s).Buries k := by
        refine ⟨h.idle, h.sound.withState hs, ?_⟩
        obtain ⟨rest, -, rfl⟩ := State.popRef_eq_ok hr
        exact h.buries
      simp only [Outcome.map_ok, Outcome.mapState_ok, Outcome.bind_ok, WordRef.lower_natCast]
      exact hnext.executeWord hw log

/-- A word is listed alike on both sides, since its source form has names and no numbers. -/
theorem see_without (h : m.Buries k) (name : String) (log : List Event) :
    Outcome.Alike (Without k) ((perform limit m (.see name)).2.map (Reply.lower k))
      (perform limit (m.forget k log) (.see name)).2 := by
  have hresolve : (m.forget k log).state.resolve name =
      ((m.state.resolve name).map (Word.lower k)).mapState (State.forget k log) :=
    State.resolve_forget h.coherent h.buries name
  simp only [perform, hresolve]
  cases m.state.resolve name with
  | fail f s => exact .fail ⟨log, rfl⟩
  | ok w s =>
      simp only [Outcome.map_ok, Outcome.mapState_ok, Outcome.bind_ok, sourceOf,
        Word.source?_lower]
      cases w.source? with
      | none => exact .fail ⟨log, rfl⟩
      | some text => exact .ok ⟨log, rfl⟩

theorem lower_of_not_ref {vs : List Value} (h : ∀ v ∈ vs, ∀ r, v ≠ .ref r) :
    vs.map (Value.lower k) = vs := by
  have hlower : ∀ v ∈ vs, Value.lower k v = v := by
    intro v hv
    cases v with
    | ref r => exact absurd rfl (h _ hv r)
    | _ => rfl
  rw [List.map_congr_left hlower, List.map_id']

/-- A command does the same without the entry. -/
theorem perform_without {c : Command} (hc : c.SourceDriven) (h : Parallel k m n) :
    (perform limit n c).1 = (perform limit m c).1 ∧
      Outcome.Alike (Without k) ((perform limit m c).2.map (Reply.lower k))
        (perform limit n c).2 := by
  have ⟨hm, log, hn⟩ := h
  cases c with
  | execute source final =>
      have halike := h.execute limit final source
      exact ⟨rfl, alike_nothing (halike.mono And.right)⟩
  | repl answers =>
      obtain ⟨hprompts, halike⟩ := (h.write Repl.banner).converse limit answers
      exact ⟨hprompts, alike_nothing (halike.mono And.right)⟩
  | abort => exact ⟨rfl, .ok h.abort.2⟩
  | run name =>
      subst hn
      refine ⟨rfl, alike_nothing (hm.runName ?_ (fun i hl => ?_) log)⟩
      · exact hm.buries.lookupOutside_without hm.coherent name
      · obtain ⟨w, hw, -⟩ := hm.coherent.offers_of_lookupOutside hl
        exact ⟨w, hw⟩
  | see name =>
      subst hn
      exact ⟨rfl, see_without hm name log⟩
  | executeTop =>
      subst hn
      exact ⟨rfl, alike_nothing (executeTop_without hm log)⟩
  | pop =>
      subst hn
      refine ⟨rfl, ?_⟩
      have hstack : (m.forget k log).state.stack = m.state.stack.map (Value.lower k) := rfl
      simp only [perform, onStack, hstack]
      cases m.state.stack with
      | nil => exact .fail ⟨log, rfl⟩
      | cons v rest => exact .ok ⟨log, rfl⟩
  | peek =>
      subst hn
      refine ⟨rfl, ?_⟩
      have hstack : (m.forget k log).state.stack = m.state.stack.map (Value.lower k) := rfl
      simp only [perform, onStack, hstack]
      cases m.state.stack with
      | nil => exact .fail ⟨log, rfl⟩
      | cons v rest => exact .ok ⟨log, rfl⟩
  | push vs =>
      subst hn
      have hvs : Stack.lower k (vs.reverse ++ m.state.stack) =
          vs.reverse ++ Stack.lower k m.state.stack := by
        rw [Stack.lower, List.map_append, List.map_reverse, lower_of_not_ref hc]
        rfl
      refine ⟨rfl, .ok ⟨log, ?_⟩⟩
      simp only [Machine.forget, Machine.withState, State.forget, State.withStack, hvs]
  | _ => exact absurd hc (by simp [Command.SourceDriven])

theorem perform_parallel (limit : Limit) {c : Command} (hc : c.SourceDriven) (h : Parallel k m n) :
    Outcome.Alike (Parallel k) ((perform limit m c).2.map (Reply.lower k))
      (perform limit n c).2 := by
  have hburies := ((Machine.buries_invariant limit k).perform hc h.1).1
  rw [← Outcome.state_map (Reply.lower k)] at hburies
  exact (perform_without hc h).2.and_left hburies

/-- The two machines go on side by side over any number of commands driven by source. -/
theorem after_parallel (cs : List Command) : ∀ {m n : Machine}, (∀ c ∈ cs, c.SourceDriven) →
    Parallel k m n → Parallel k (after limit m cs) (after limit n cs) := by
  induction cs with
  | nil => exact fun _ h => h
  | cons c cs ih =>
      intro m n hcs h
      have hnext := (perform_parallel limit (hcs c List.mem_cons_self) h).state
      rw [Outcome.state_map] at hnext
      exact ih (fun b hb => hcs b (List.mem_cons_of_mem c hb)) hnext

/-! ### Abandoned definitions -/

/-- An abandoned definition leaves no trace. Let a word be open between two commands of a session
driven by source; it is the last entry. Whatever commands are performed after `abort`, they go as
they would had the open word been taken out of the dictionary: with the same prompts, answers,
faults, output and modes, and with the same stack and the same other entries, all up to the numbers
of the entries that come after it. -/
theorem abandoned_definition_forgotten (hm : Reaches limit m) (hk : m.state.dict.active = some k) :
    k + 1 = m.state.dict.size ∧
    ∀ cs : List Command, (∀ c ∈ cs, c.SourceDriven) → ∀ m₁ m₂ : Machine,
      m₁ = after limit m.abort cs → m₂ = after limit (m.discard k) cs →
      m₂.state.stack = Stack.lower k m₁.state.stack ∧
      (m₁.state.dict.Buries k ∧ m₂.state.dict = m₁.state.dict.without k) ∧
      m₂.state.mode = m₁.state.mode ∧ m₂.state.out = m₁.state.out ∧
      ∀ c : Command, c.SourceDriven →
        (perform limit m₂ c).1 = (perform limit m₁ c).1 ∧
        Outcome.Alike (Without k) ((perform limit m₁ c).2.map (Reply.lower k))
          (perform limit m₂ c).2 := by
  have hsound : m.Sound .initial := .of_reaches hm
  refine ⟨(hsound.state.coherent.of_active hk).2.1, fun cs hcs m₁ m₂ hm₁ hm₂ => ?_⟩
  have hstart : Parallel k m.abort (m.discard k) :=
    Machine.parallel_discard hsound (Machine.calls_of_reaches hm) hk
  have h : Parallel k m₁ m₂ := by
    rw [hm₁, hm₂]
    exact after_parallel cs hcs hstart
  obtain ⟨log, heq⟩ := h.2
  refine ⟨?_, ⟨h.1.buries, ?_⟩, ?_, ?_, fun c hc => perform_without hc h⟩ <;> rw [heq] <;> rfl

/-- After a line that failed inside a definition, the next word gets a higher number than it would
have without that line, and does the same. -/
theorem abandoned_definition_forgotten_two :
    ∃ m m₁ m₂ : Machine, Reaches (.atMost 9) m ∧ m.state.dict.active = some 23 ∧
      m₁ = after (.atMost 9) m.abort [.execute ": two 2 ; ' two" true] ∧
      m₂ = after (.atMost 9) (m.discard 23) [.execute ": two 2 ; ' two" true] ∧
      m₁.state.stack = [.ref ⟨24, "two"⟩] ∧ m₂.state.stack = [.ref ⟨23, "two"⟩] ∧
      Outcome.Alike (Without 23) ((perform (.atMost 9) m₁ .executeTop).2.map (Reply.lower 23))
        (perform (.atMost 9) m₂ .executeTop).2 := by
  have hreaches : Reaches (.atMost 9)
      (perform (.atMost 9) .initial (.execute ": sq dup nonsense" false)).2.state :=
    .perform (.execute ": sq dup nonsense" false) trivial .fresh
  obtain ⟨m, hm, hactive, hstack⟩ : ∃ m : Machine, Reaches (.atMost 9) m ∧
      m.state.dict.active = some 23 ∧
      (after (.atMost 9) m.abort [.execute ": two 2 ; ' two" true]).state.stack =
        [.ref ⟨24, "two"⟩] :=
    ⟨_, hreaches, by cbv, by cbv⟩
  have hcs : ∀ c ∈ [Command.execute ": two 2 ; ' two" true], c.SourceDriven := by
    simp [Command.SourceDriven]
  obtain ⟨hlower, -, -, -, hnext⟩ :=
    (abandoned_definition_forgotten hm hactive).2 _ hcs _ _ rfl rfl
  rw [hstack] at hlower
  exact ⟨m, _, _, hm, hactive, rfl, rfl, hstack, hlower, (hnext .executeTop trivial).2⟩

end Session

end ThreadedForth
