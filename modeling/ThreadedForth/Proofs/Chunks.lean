import ThreadedForth.Proofs.Scanning
import ThreadedForth.Proofs.Soundness
/-!
# ThreadedForth.Proofs.Chunks

Source may be fed in pieces.

Nothing the interpreter does depends on tokens that it has not come to yet: an operation that has
more tokens behind those it reads does the same and leaves the additional ones unread
(`Unaware`). This is shown of every reader of the input in turn, of primitives, of words that call
them, of tokens and of the loop over tokens. An operation that fails because the input is used up
(`Fault.Starved`) is excepted, because with more tokens it would have found the name it wanted.

There is one more place where the end of the input is noticed, and it does not fail there: the name
of a new definition may be followed by a marker, which is taken as well. So the cut must not
separate the two (`Machine.NamesLast`).
-/

namespace ThreadedForth

/-- A word wanted to read a name, and the input was used up. -/
def Fault.Starved : Fault → Prop
  | problem p _ => ∃ op, p = .missingName op
  | _ => False

/-- Want of a name stays want of a name, whatever words it comes out of. -/
theorem Fault.Starved.within {f : Fault} (h : f.Starved) (names : List String) :
    (f.within names).Starved := by
  cases f <;> exact h

/-! ### Operations that are unaware of what comes later -/

namespace Outcome

variable {σ τ α β : Type}

/-- The operation failed for want of a name. -/
def Starves (x : Outcome σ α) : Prop := ∃ f s, x = .fail f s ∧ f.Starved

theorem Starves.bind {x : Outcome σ α} (h : x.Starves) (next : α → σ → Outcome σ β) :
    (x.bind next).Starves := by
  obtain ⟨f, s, rfl, hf⟩ := h
  exact ⟨f, s, rfl, hf⟩

theorem Starves.map {x : Outcome σ α} (h : x.Starves) (g : α → β) : (x.map g).Starves := by
  obtain ⟨f, s, rfl, hf⟩ := h
  exact ⟨f, s, rfl, hf⟩

theorem Starves.mapState {x : Outcome σ α} (h : x.Starves) (g : σ → τ) :
    (x.mapState g).Starves := by
  obtain ⟨f, s, rfl, hf⟩ := h
  exact ⟨f, g s, rfl, hf⟩

theorem Starves.within {x : Outcome σ α} (h : x.Starves) (names : List String) :
    (x.mapFault (.within names)).Starves := by
  obtain ⟨f, s, rfl, hf⟩ := h
  exact ⟨f.within names, s, rfl, hf.within names⟩

end Outcome

/-- On `s`, the operation does not notice what `extend` adds to a state, and keeps it. -/
def Unaware {σ α : Type} (extend : σ → σ) (f : σ → Outcome σ α) (s : σ) : Prop :=
  (f s).Starves ∨ f (extend s) = (f s).mapState extend

namespace Unaware

variable {σ α β : Type} {extend : σ → σ} {s : σ} {f : σ → Outcome σ α}

/-- If the first of two operations notices nothing and does not starve, it is up to the second. -/
theorem bind {next : α → σ → Outcome σ β} (hf : Unaware extend f s)
    (hnext : ∀ a t, f s = .ok a t → Unaware extend (next a) t) :
    Unaware extend (fun s => (f s).bind next) s := by
  rcases hf with hstarves | heq
  · exact .inl (hstarves.bind next)
  show ((f s).bind next).Starves ∨ (f (extend s)).bind next = ((f s).bind next).mapState extend
  rw [heq]
  cases hs : f s with
  | ok a t => exact hnext a t hs
  | fail e t => exact .inr rfl

theorem map (hf : Unaware extend f s) (g : α → β) : Unaware extend (fun s => (f s).map g) s := by
  rcases hf with hstarves | heq
  · exact .inl (hstarves.map g)
  show _ ∨ (f (extend s)).map g = ((f s).map g).mapState extend
  rw [heq]
  cases f s <;> exact .inr rfl

theorem within (hf : Unaware extend f s) (names : List String) :
    Unaware extend (fun s => (f s).mapFault (.within names)) s := by
  rcases hf with hstarves | heq
  · exact .inl (hstarves.within names)
  show _ ∨ (f (extend s)).mapFault _ = ((f s).mapFault _).mapState extend
  rw [heq]
  cases f s <;> exact .inr rfl

end Unaware

/-! ### Reading names -/

namespace State

/-- The state with more tokens to read, after those it has. -/
def more (ts : List Token) (s : State) : State := s.withInput (some (s.input.getD [] ++ ts))

variable {ts : List Token}

@[simp] theorem stack_more (s : State) : (s.more ts).stack = s.stack := rfl
@[simp] theorem dict_more (s : State) : (s.more ts).dict = s.dict := rfl
@[simp] theorem mode_more (s : State) : (s.more ts).mode = s.mode := rfl

/-- Reading a name takes the first token, or starves. -/
theorem unaware_readName (op : String) (s : State) : Unaware (more ts) (readName op) s := by
  match h : s.input with
  | some (t :: rest) =>
      refine .inr ?_
      simp [readName, more, withInput, h]
  | some [] | none => exact .inl ⟨.raise (.missingName op), s, by simp [readName, h], op, rfl⟩

/-- A look-up does not read the input. -/
theorem unaware_resolve (name : String) (s : State) : Unaware (more ts) (resolve name) s := by
  refine .inr ?_
  unfold resolve
  rw [dict_more]
  split <;> rfl

theorem unaware_tick (s : State) : Unaware (more ts) tick s :=
  .bind (unaware_readName _ s) fun name t _ => .bind (unaware_resolve name t) fun _ _ _ => .inr rfl

theorem unaware_see (s : State) : Unaware (more ts) see s := by
  refine .bind (unaware_readName _ s) fun name t _ => .bind (unaware_resolve name t) fun w u _ => ?_
  refine .inr ?_
  cases w.source? <;> rfl

end State

/-! ### Words -/

open State (more)

variable {limit : Limit} {ts : List Token}

/-- To finish a definition does not read the input. -/
theorem State.finish_more (s : State) : (s.more ts).finish = s.finish.more ts := by
  unfold finish
  rw [dict_more]
  split <;> rfl

/-- Of the system words only those that read a name can starve; none looks further than that name.
-/
theorem SystemWord.unaware_run (w : SystemWord) (s : State) : Unaware (more ts) w.run s := by
  cases w with
  | tick => exact (s.unaware_tick).map _
  | see => exact (s.unaware_see).map _
  | words => exact .inr rfl
  | colon =>
      refine .map (.inr ?_) _
      unfold State.beginDefinition
      rw [State.dict_more]
      split <;> rfl
  | semicolon =>
      refine .map (.inr ?_) _
      unfold State.endDefinition
      rw [State.mode_more, State.finish_more]
      split <;> rfl
  | execute =>
      refine .map (.inr ?_) _
      unfold State.popRef
      rw [State.stack_more]
      split
      · rfl
      · rfl
      next v rest _ _ => cases v.describe? <;> rfl

/-- No primitive notices tokens behind those it reads. -/
theorem Primitive.unaware_run (p : Primitive) (s : State) : Unaware (more ts) p.run s := by
  cases p with
  | system w => exact w.unaware_run s
  | inert name => exact .inr rfl
  | data w =>
      refine .inr ?_
      simp only [run, DataWord.runOn, State.stack_more]
      split <;> rfl

theorem unaware_evalCell {call : Int → State → Outcome State Unit}
    (hcall : ∀ h s, Unaware (more ts) (call h) s) (c : Cell) (s : State) :
    Unaware (more ts) (evalCell call c) s := by
  cases c with
  | literal v => exact .inr rfl
  | word r => exact hcall r.handle s
  | primitive p =>
      refine .bind (p.unaware_run s) fun wanted t _ => ?_
      cases wanted with
      | none => exact .inr rfl
      | some r => exact hcall r.handle t

/-- A list of cells notices nothing if none of the words it calls does. -/
theorem unaware_evalCode {call : Int → State → Outcome State Unit}
    (hcall : ∀ h s, Unaware (more ts) (call h) s) (code : List Cell) :
    ∀ s, Unaware (more ts) (evalCode call code) s := by
  induction code with
  | nil => exact fun s => .inr rfl
  | cons c code ih => exact fun s => .bind (unaware_evalCell hcall c s) fun _ t _ => ih t

/-- No word notices tokens behind those it reads, by induction on the room for calls. -/
theorem unaware_evalCall (limit : Limit) (free : Nat) :
    ∀ h s, Unaware (more ts) (evalCall limit free h) s := by
  induction free with
  | zero =>
      intro h s
      refine .inr ?_
      unfold evalCall
      rw [State.dict_more]
      split <;> rfl
  | succ free ih =>
      intro h s
      cases hw : s.dict.word? h with
      | none =>
          refine .inr ?_
          have hw' : (s.more ts).dict.word? h = none := hw
          rw [evalCall_of_word?_eq_none limit hw, evalCall_of_word?_eq_none limit hw']
          rfl
      | some w =>
          have hw' : (s.more ts).dict.word? h = some w := hw
          have hcode := (unaware_evalCode ih w.code s).within [w.name]
          unfold Unaware at hcode ⊢
          rwa [evalCall_succ limit hw, evalCall_succ limit hw']

/-! ### Tokens -/

namespace Machine

/-- The machine with more tokens to read, after those it has. -/
def more (ts : List Token) (m : Machine) : Machine := m.withState (m.state.more ts)

variable {m : Machine}

theorem unaware_mapState {α : Type} {f : State → Outcome State α}
    (h : Unaware (State.more ts) f m.state) :
    Unaware (more ts) (fun m => (f m.state).mapState m.withState) m := by
  rcases h with hstarves | heq
  · exact .inl (hstarves.mapState _)
  show _ ∨ (f (m.state.more ts)).mapState _ = ((f m.state).mapState _).mapState (more ts)
  rw [heq]
  cases f m.state <;> exact .inr rfl

/-- Running a word notices nothing, because running it is evaluating it. -/
theorem unaware_executeWord (hidle : m.calls = .empty) (handle : Int) :
    Unaware (more ts) (executeWord limit handle) m := by
  have hidle' : (m.more ts).calls = .empty := hidle
  have heval : Unaware (more ts)
      (fun m => (evalCall limit limit.room handle m.state).mapState m.withState) m :=
    unaware_mapState (unaware_evalCall limit limit.room handle m.state)
  unfold Unaware at heval ⊢
  rwa [executeWord_of_idle hidle, executeWord_of_idle hidle']

theorem unaware_runName (hidle : m.calls = .empty) (lookup : Dictionary → String → Option Nat)
    (name : String) : Unaware (more ts) (runName limit lookup name) m := by
  cases hl : lookup m.state.dict name with
  | none =>
      refine .inr ?_
      have hl' : lookup (m.more ts).state.dict name = none := hl
      simp [runName, hl, hl']
  | some h =>
      have hword : Unaware (more ts) (executeWord limit h) m := unaware_executeWord hidle h
      have hl' : lookup (m.more ts).state.dict name = some h := hl
      simpa [Unaware, runName, hl, hl'] using hword

/-- A token that is interpreted notices nothing of what comes after. -/
theorem unaware_interpretToken (hidle : m.calls = .empty) (t : Token) :
    Unaware (more ts) (interpretToken limit t) m := by
  -- Finishing an open definition first is unaware of the input as well.
  obtain ⟨m₀, hidle₀, heq, heq'⟩ : ∃ m₀ : Machine, m₀.calls = .empty ∧
      (if m.state.dict.active.isSome then m.withState m.state.finish else m) = m₀ ∧
      (if (m.more ts).state.dict.active.isSome then (m.more ts).withState (m.more ts).state.finish
        else m.more ts) = m₀.more ts := by
    refine ⟨_, ?_, rfl, ?_⟩
    · split <;> exact hidle
    · show (if m.state.dict.active.isSome then (m.more ts).withState (m.state.more ts).finish
        else m.more ts) = _
      rw [State.finish_more]
      split <;> rfl
  unfold Unaware interpretToken
  simp only [heq, heq']
  cases t with
  | int n text => exact .inr rfl
  | name name => exact unaware_runName hidle₀ Dictionary.lookup name

theorem unaware_extend (k : Nat) (c : Cell) : Unaware (more ts) (extend k c) m := by
  refine .inr ?_
  unfold extend
  show (m.state.dict.extend k c).mapState _ = _
  cases m.state.dict.extend k c <;> rfl

/-- A name that is compiled notices nothing of what comes after, and neither does the immediate word
it may run. -/
theorem unaware_compileName (hidle : m.calls = .empty) (k : Nat) (name : String) :
    Unaware (more ts) (compileName limit k name) m := by
  have hdict : (m.more ts).state.dict = m.state.dict := rfl
  unfold Unaware compileName
  rw [hdict]
  cases hl : m.state.dict.lookupOutside name with
  | none => exact .inr rfl
  | some h =>
      cases hw : m.state.dict.entries[h]? with
      | none => exact .inr (by simp [hw])
      | some w =>
          simp only [hw]
          split
          · exact unaware_executeWord (m := m.withState (m.state.record _)) hidle h
          · exact unaware_extend k _

theorem unaware_compileToken (hidle : m.calls = .empty) (k : Nat) (t : Token) :
    Unaware (more ts) (compileToken limit k t) m := by
  cases t with
  | int n text => exact unaware_extend k _
  | name name =>
      unfold Unaware compileToken
      simp only
      split
      · refine unaware_mapState (f := State.endDefinition) (.inr ?_)
        unfold State.endDefinition
        rw [State.mode_more, State.finish_more]
        split <;> rfl
      · exact unaware_compileName hidle k name

/-- Whether a new word is immediate is decided by the token after its name, if there is one. -/
theorem startDefinition_more (t : Token)
    (hmarker : m.state.pending = 0 → ts.head?.any Token.isImmediateMarker = false) :
    (m.more ts).startDefinition t = (m.startDefinition t).more ts := by
  match h : m.state.input with
  | some (next :: rest) =>
      simp only [startDefinition, State.define, State.record, more, State.more, state_withState,
        State.withInput, h, Option.getD_some, List.cons_append]
      split <;> simp [withState]
  | some [] | none =>
      have hts := hmarker (by simp [State.pending, h])
      cases ts with
      | nil =>
          simp [startDefinition, State.define, State.record, more, State.more, withState,
            State.withInput, h]
      | cons next rest =>
          have hnext : next.isImmediateMarker = false := by simpa using hts
          simp [startDefinition, State.define, State.record, more, State.more, withState,
            State.withInput, h, hnext]

/-- A token notices nothing of what comes after, unless it is a new name, with the marker as the
next token. -/
theorem unaware_dispatch (hidle : m.calls = .empty) (t : Token)
    (hmarker : m.state.mode = .compile → m.state.dict.active = none → m.state.pending = 0 →
      ts.head?.any Token.isImmediateMarker = false) :
    Unaware (more ts) (dispatch limit t) m := by
  have hmode : (m.more ts).state.mode = m.state.mode := rfl
  have hdict : (m.more ts).state.dict = m.state.dict := rfl
  unfold Unaware dispatch
  rw [hmode, hdict]
  cases hm : m.state.mode with
  | interpret => exact unaware_interpretToken hidle t
  | compile =>
      cases hk : m.state.dict.active with
      | none =>
          refine .inr ?_
          simp only
          rw [startDefinition_more t (hmarker hm hk)]
          rfl
      | some k => exact unaware_compileToken hidle k t

/-! ### Pieces of source -/

/-- The last of the unread tokens will be taken for the name of a new word. -/
inductive NamesLast (limit : Limit) : Machine → Prop where
  /-- It is the only one, and a definition has no name yet. -/
  | here {m : Machine} {t : Token} : m.state.input = some [t] → m.state.mode = .compile →
      m.state.dict.active = none → NamesLast limit m
  /-- The token before it is dealt with without a fault. -/
  | later {m m' : Machine} {t : Token} {rest : List Token} : m.state.input = some (t :: rest) →
      (m.withState (m.state.withInput (some rest))).dispatch limit t = .ok () m' →
      NamesLast limit m' → NamesLast limit m

/-- The loop comes to the end of the input with such a name, so it succeeds. -/
theorem NamesLast.consume_eq_ok (h : m.NamesLast limit) : ∃ m₁, m.consume limit = .ok () m₁ := by
  induction h with
  | @here m t hinput hmode hactive =>
      have hdispatch : (m.withState (m.state.withInput (some []))).dispatch limit t =
          .ok () ((m.withState (m.state.withInput (some []))).startDefinition t) := by
        simp [dispatch, State.withInput, hmode, hactive]
      have hpending := pending_startDefinition t (m.withState (m.state.withInput (some [])))
      rw [consume_cons hinput, hdispatch]
      exact ⟨_, consume_of_pending_eq_zero (Nat.le_zero.1 hpending)⟩
  | later hinput hdispatch _ ih =>
      rw [consume_cons hinput, hdispatch]
      exact ih

/-- The loop over tokens succeeds only when none are left. -/
theorem pending_of_consume (m : Machine) :
    ∀ {m₁ : Machine}, m.consume limit = .ok () m₁ → m₁.state.pending = 0 := by
  induction m using consume_induction limit with
  | done m hpending =>
      intro m₁ h
      rw [consume_of_pending_eq_zero hpending] at h
      cases h
      exact hpending
  | token m t rest hinput ih =>
      intro m₁ h
      rw [consume_cons hinput] at h
      cases hd : (m.withState (m.state.withInput (some rest))).dispatch limit t with
      | fail f m' => simp [hd] at h
      | ok a m' =>
          rw [hd] at h
          exact ih m' hd h

/-- With more tokens behind its own, the loop does the same up to where its tokens end, and goes on
from there. -/
theorem consume_more (ts : List Token) (m : Machine) : m.calls = .empty →
    ¬ (m.NamesLast limit ∧ ts.head?.any Token.isImmediateMarker) →
    (m.consume limit).Starves ∨ (m.more ts).consume limit =
      match m.consume limit with
      | .ok _ m₁ => (m₁.more ts).consume limit
      | .fail f m₁ => .fail f (m₁.more ts) := by
  induction m using consume_induction limit with
  | done m hpending =>
      intro _ _
      rw [consume_of_pending_eq_zero hpending]
      exact .inr rfl
  | token m t rest hinput ih =>
      intro hidle hnames
      have hidle₀ : (m.withState (m.state.withInput (some rest))).calls = .empty := hidle
      have hmore : (m.more ts).state.input = some (t :: (rest ++ ts)) := by
        simp [more, State.more, State.withInput, hinput]
      have hdispatch : Unaware (more ts) (dispatch limit t)
          (m.withState (m.state.withInput (some rest))) := by
        refine unaware_dispatch hidle₀ t fun hmode hactive hpending => ?_
        obtain rfl : rest = [] := List.eq_nil_of_length_eq_zero hpending
        simpa using fun h => hnames ⟨.here hinput hmode hactive, h⟩
      have hstart : (m.more ts).withState ((m.more ts).state.withInput (some (rest ++ ts))) =
          (m.withState (m.state.withInput (some rest))).more ts := rfl
      rw [consume_cons hinput, consume_cons hmore, hstart]
      rcases hdispatch with hstarves | heq
      · exact .inl (hstarves.bind _)
      rw [heq]
      cases hd : (m.withState (m.state.withInput (some rest))).dispatch limit t with
      | fail f m' => exact .inr rfl
      | ok a m' =>
          have hidle' := ((idle_invariant limit).dispatch t hidle₀).1
          rw [hd] at hidle'
          exact ih m' hd hidle' fun hn => hnames ⟨.later hinput hd hn.1, hn.2⟩

/-- What a piece of source does is decided by what its loop does. -/
theorem interpret_congr {m n : Machine} {as bs : List Token} (final : Bool)
    (hinput : m.state.input = n.state.input)
    (hconsume : (m.withState (m.state.withInput (some as))).consume limit =
      (n.withState (n.state.withInput (some bs))).consume limit) :
    m.interpret limit final as = n.interpret limit final bs := by
  unfold interpret
  rw [hconsume, hinput]

variable {as bs : List Token} {m₁ : Machine}

/-- If the first piece succeeds, all tokens in one list have the effect of one piece after the
other. -/
theorem interpret_append_of_ok (hidle : m.calls = .empty) (final : Bool)
    (hok : m.interpret limit false as = .ok () m₁)
    (hnames : ¬ ((m.withState (m.state.withInput (some as))).NamesLast limit ∧
      bs.head?.any Token.isImmediateMarker)) :
    m.interpret limit final (as ++ bs) = m₁.interpret limit final bs := by
  have hmore := consume_more bs (m.withState (m.state.withInput (some as))) hidle hnames
  unfold interpret at hok
  cases hconsume : (m.withState (m.state.withInput (some as))).consume limit with
  | fail f m' => simp [hconsume] at hok
  | ok a m' =>
      obtain rfl : m'.withState (m'.state.withInput m.state.input) = m₁ := by
        simpa [hconsume] using hok
      rw [hconsume] at hmore
      rcases hmore with ⟨f, m'', hfail, -⟩ | hmore
      · simp at hfail
      refine interpret_congr final rfl (hmore.trans ?_)
      -- The first piece is used up, so only the tokens of the second one are left.
      have hpending : m'.state.input.getD [] = [] :=
        List.eq_nil_of_length_eq_zero (pending_of_consume _ hconsume)
      show (m'.withState (m'.state.withInput (some (m'.state.input.getD [] ++ bs)))).consume limit =
        _
      rw [hpending]
      rfl

/-- If the first piece fails, and not for want of a name, the tokens behind it are never read. -/
theorem interpret_append_of_fail (hidle : m.calls = .empty) (final : Bool) {f : Fault}
    (hfail : m.interpret limit false as = .fail f m₁) (hf : ¬ f.Starved) :
    m.interpret limit final (as ++ bs) = .fail f m₁ := by
  unfold interpret at hfail
  cases hconsume : (m.withState (m.state.withInput (some as))).consume limit with
  | ok a m' => simp [hconsume] at hfail
  | fail g m' =>
      obtain ⟨rfl, rfl⟩ : g = f ∧ m'.withState (m'.state.withInput m.state.input) = m₁ := by
        simpa [hconsume] using hfail
      have hnames : ¬ (m.withState (m.state.withInput (some as))).NamesLast limit := by
        intro hnames
        obtain ⟨m'', hok⟩ := hnames.consume_eq_ok
        simp [hconsume] at hok
      have hmore := consume_more bs (m.withState (m.state.withInput (some as))) hidle
        fun h => hnames h.1
      rw [hconsume] at hmore
      rcases hmore with ⟨g', m'', hfail', hstarved⟩ | hmore
      · cases hfail'
        exact absurd hstarved hf
      have hstart : m.withState (m.state.withInput (some (as ++ bs))) =
          (m.withState (m.state.withInput (some as))).more bs := rfl
      unfold interpret
      rw [hstart, hmore]
      rfl

end Machine

/-- Source may be fed in pieces that end where a line ends, provided no comment is open there. If
the first piece succeeds, interpreting both pieces at once is interpreting the second one where the
first one ended, except that a marker at the beginning of the second piece would have belonged to
the name of a new definition at the end of the first. If the first piece fails, other than for want
of a name, both pieces at once fail in the same way. -/
theorem Session.execute_append_line {limit : Limit} {m : Machine} {a : String}
    (hidle : m.calls = .empty) (hclosed : ∀ l ∈ scan a.toList, l.Closed) (b : String)
    (final : Bool) :
    (∀ m₁, m.execute limit false a = .ok () m₁ →
      ¬ ((m.withState (m.state.withInput (some (tokenize a)))).NamesLast limit ∧
        (tokenize b).head?.any Token.isImmediateMarker) →
      m.execute limit final (a ++ "\n" ++ b) = m₁.execute limit final b) ∧
    ∀ f m₁, m.execute limit false a = .fail f m₁ →
      (∀ op trace, f ≠ .problem (.missingName op) trace) →
      m.execute limit final (a ++ "\n" ++ b) = .fail f m₁ := by
  unfold Machine.execute
  rw [tokenize_append_line hclosed]
  refine ⟨fun m₁ hok hnames => Machine.interpret_append_of_ok hidle final hok hnames,
    fun f m₁ hfail hf => Machine.interpret_append_of_fail hidle final hfail ?_⟩
  intro hstarved
  cases f with
  | problem p trace =>
      obtain ⟨op, rfl⟩ := hstarved
      exact hf op trace rfl
  | _ => exact hstarved

/-- A definition that is cut after a line comment, and a line that fails before another one. -/
theorem Session.execute_append_line_definition :
    (∃ m₁, Machine.initial.execute (.atMost 9) false ": sq ( n -- n*n ) dup \\ half" = .ok () m₁ ∧
      Machine.initial.execute (.atMost 9) true
        (": sq ( n -- n*n ) dup \\ half" ++ "\n" ++ "* ; 5 sq") =
          m₁.execute (.atMost 9) true "* ; 5 sq" ∧
      (m₁.execute (.atMost 9) true "* ; 5 sq").state.state.stack = [.int 25]) ∧
    ∃ m₁, Machine.initial.execute (.atMost 9) true ("1 nonsense" ++ "\n" ++ "2") =
      .fail (.raise (.unknown "nonsense")) m₁ ∧ m₁.state.stack = [.int 1] := by
  refine ⟨?_, ?_⟩
  · have hclosed : (scan ": sq ( n -- n*n ) dup \\ half".toList).all fun l => decide l.Closed := by
      cbv
    obtain ⟨m₁, hm₁, hstack⟩ : ∃ m₁,
        Machine.initial.execute (.atMost 9) false ": sq ( n -- n*n ) dup \\ half" = .ok () m₁ ∧
        (m₁.execute (.atMost 9) true "* ; 5 sq").state.state.stack = [.int 25] :=
      ⟨_, by cbv, by cbv⟩
    have hmarker : (tokenize "* ; 5 sq").head?.any Token.isImmediateMarker = false := by cbv
    refine ⟨m₁, hm₁, ?_, hstack⟩
    exact (execute_append_line rfl (by simpa using hclosed) "* ; 5 sq" true).1 m₁ hm₁
      fun h => absurd h.2 (by simp [hmarker])
  · have hclosed : (scan "1 nonsense".toList).all fun l => decide l.Closed := by cbv
    obtain ⟨m₁, hm₁, hstack⟩ : ∃ m₁, Machine.initial.execute (.atMost 9) false "1 nonsense" =
        .fail (.raise (.unknown "nonsense")) m₁ ∧ m₁.state.stack = [.int 1] :=
      ⟨_, by cbv, by cbv⟩
    refine ⟨m₁, ?_, hstack⟩
    refine (execute_append_line rfl (by simpa using hclosed) "2" true).2 _ m₁ hm₁ ?_
    intro op trace h
    have hunknown : Problem.unknown "nonsense" ≠ .missingName op := by
      simp [Problem.unknown, Problem.missingName, Problem.of, Problem.Kind.usualText]
    exact hunknown (Fault.problem.inj h).1

-- The exception is needed: alone, the second piece is a word that nobody knows.
example :
    (Machine.initial.execute (.atMost 9) false ": x\nimmediate").fault? = none ∧
      ((Machine.initial.execute (.atMost 9) false ": x").state.execute (.atMost 9) false
        "immediate").fault? = some (.raise (.unknown "immediate")) := by
  constructor <;> cbv

end ThreadedForth
