import ThreadedForth.Proofs.Execution
import ThreadedForth.Proofs.Spelling
/-!
# ThreadedForth.Proofs.Provenance

Where the names in a dictionary come from. In a session driven by source every name that is not
built in is the text of a token that was read, and every cell of a definition is an integer, or a
call by such a name that is read as a name again and is not the end of a definition
(`Cell.Written`). So the code of a definition can be written down as source text.

The invariant is about the unread tokens as well (`State.Written`), since they are what the next
definitions are made of. A word that runs can take tokens from the front, but it cannot put any back
(`Primitive.unread_run`).
-/

namespace ThreadedForth

/-! ### What is written -/

/-- The cell is an integer, or a call by a name that may stand in a definition. -/
def Cell.Written : Cell → Prop
  | .primitive _ => False
  | .word r => (Token.name r.name).Lexed ∧ r.name ≠ SystemWord.semicolon.name
  | .literal v => ∃ n, v = .int n

/-- The entry was made by a definition in source text. -/
structure Word.Written (w : Word) : Prop where
  /-- It has its name from a token. -/
  name : ∃ x : Token, x.Lexed ∧ x.text = w.name
  /-- It has its cells from tokens. -/
  code : ∀ c ∈ w.code, c.Written

namespace Dictionary

variable {d d' : Dictionary}

/-- All entries but the ones that are built in were made by definitions in source text. -/
def Written (d : Dictionary) : Prop :=
  ∀ ⦃i : Nat⦄ ⦃w : Word⦄, initial.size ≤ i → d.entries[i]? = some w → w.Written

/-- A change to one entry keeps what is asked of all, if it keeps it of that entry. -/
theorem Written.modify (h : d.Written) {f : Word → Word}
    (hf : ∀ w : Word, w.Written → (f w).Written) (k : Nat) (active : Option Nat) :
    Written ⟨d.entries.modify k f, active⟩ := by
  intro i w hi hw
  rcases Coherent.entries_modify_eq_some hw with ⟨-, hw⟩ | ⟨-, v, hv, rfl⟩
  · exact h hi hw
  · exact hf v (h hi hv)

theorem Written.finish (h : d.Written) : d.finish.Written := by
  unfold Dictionary.finish
  split
  · exact h
  next k _ => exact h.modify (f := Word.close) (fun w hw => ⟨hw.name, hw.code⟩) k none

theorem Written.abandon (h : d.Written) : d.abandon.Written := by
  unfold Dictionary.abandon
  split
  · exact h
  next k _ => exact h.modify (f := Word.bury) (fun w hw => ⟨hw.name, hw.code⟩) k none

/-- To end a definition is all that a word can do to the entries while it runs. -/
theorem Written.finishes (h : d.Written) (hfinishes : d.Finishes d') : d'.Written := by
  rcases hfinishes with rfl | rfl
  · exact h
  · exact h.finish

/-- A new entry has the text of a token for its name. -/
theorem Written.define (h : d.Written) {x : Token} (hx : x.Lexed) : (d.define x.text).Written := by
  intro i w hi hw
  rcases Coherent.entries_append_eq_some hw with hw | ⟨-, rfl⟩
  · exact h hi hw
  · exact ⟨⟨x, hx, rfl⟩, fun c hc => absurd hc List.not_mem_nil⟩

end Dictionary

/-- The unread tokens came from source text, and so did all definitions. -/
structure State.Written (s : State) : Prop where
  /-- The unread tokens came from source text. -/
  input : ∀ t ∈ s.input.getD [], t.Lexed
  /-- All definitions came from source text. -/
  dict : s.dict.Written

/-! ### Words -/

/-- To read a name takes at most one token from the front of the unread ones. -/
theorem State.unread_readName (op : String) (s : State) :
    (s.readName op).state.input.getD [] <:+ s.input.getD [] := by
  unfold readName
  split
  next t ts hinput =>
    rw [hinput]
    exact List.suffix_cons t ts
  · exact List.suffix_refl _

/-- A system word only takes tokens from the front of the unread ones. -/
theorem SystemWord.unread_run (w : SystemWord) (s : State) :
    (w.run s).state.input.getD [] <:+ s.input.getD [] := by
  cases w with
  | colon =>
      rw [run, Outcome.state_map, State.beginDefinition]
      split <;> exact List.suffix_refl _
  | semicolon =>
      rw [run, Outcome.state_map, State.endDefinition]
      split
      · exact List.suffix_refl _
      · simp
  | tick =>
      rw [run, Outcome.state_map]
      exact State.named_keeps (I := fun t => t.input.getD [] <:+ s.input.getD [])
        (s.unread_readName _) fun w t ht => ht
  | execute =>
      rw [run, Outcome.state_map]
      rcases s.popRef_ensures.1 with heq | ⟨v, rest, -, heq⟩
      · simp [heq]
      · simp [heq, State.withStack]
  | words => exact List.suffix_refl _
  | see =>
      rw [run, Outcome.state_map]
      refine State.named_keeps (I := fun t => t.input.getD [] <:+ s.input.getD [])
        (s.unread_readName _) fun w t ht => ?_
      cases w.source? <;> exact ht

/-- A primitive takes unread tokens from the front, or none. -/
theorem Primitive.unread_run (p : Primitive) (s : State) :
    (p.run s).state.input.getD [] <:+ s.input.getD [] := by
  cases p with
  | data w =>
      obtain ⟨stack, text, -, heq⟩ := (w.runOn_ensures s).1
      rw [run, heq]
      exact List.suffix_refl _
  | system w => exact w.unread_run s
  | inert name => exact List.suffix_refl _

/-- What bounds the effects of primitives bounds those of runs, so no run makes up a name. -/
theorem effectBound_written : EffectBound fun s t => s.Written → t.Written where
  refl := fun _ h => h
  trans := fun h₁ h₂ h => h₂ (h₁ h)
  push := fun _ _ h => ⟨h.input, h.dict⟩
  primitive := fun p s h =>
    ⟨fun t ht => h.input t ((p.unread_run s).subset ht), h.dict.finishes (p.finishes_run s)⟩

/-! ### Acts -/

namespace Machine

variable {limit : Limit} {m : Machine}

theorem written_executeWord (h : m.state.Written) (handle : Int) :
    (m.executeWord limit handle).state.state.Written :=
  effectBound_written.executeWord limit handle m h

/-- A word that the host runs by its reference makes up no name either. -/
theorem written_executeTop (h : m.state.Written) :
    (Session.executeTop limit m).state.state.Written := by
  have hpop := effectBound_written.primitive (.system .execute) m.state h
  rw [Primitive.run, SystemWord.run, Outcome.state_map] at hpop
  unfold Session.executeTop
  cases hr : m.state.popRef with
  | fail f s =>
      rw [hr] at hpop
      exact hpop
  | ok r s =>
      rw [hr] at hpop
      exact written_executeWord (m := m.withState s) hpop r.handle

/-- The name of a new word is the text of the token that was taken for it. -/
theorem written_startDefinition (h : m.state.Written) {t : Token} (ht : t.Lexed) :
    (m.startDefinition t).state.Written := by
  have hdefine := h.dict.define ht
  unfold startDefinition
  simp only
  split
  next next rest hinput =>
    have hinput' : m.state.input = some (next :: rest) := hinput
    split
    · have hmark := hdefine.modify (f := Word.markImmediate) (fun w hw => ⟨hw.name, hw.code⟩)
        m.state.dict.size (some m.state.dict.size)
      refine ⟨fun u hu => h.input u ?_, hmark⟩
      rw [hinput']
      exact List.mem_cons_of_mem next hu
    · exact ⟨h.input, hdefine⟩
  · exact ⟨h.input, hdefine⟩

theorem written_extend (h : m.state.Written) (k : Nat) {c : Cell} (hc : c.Written) :
    (m.extend k c).state.state.Written := by
  unfold Machine.extend Dictionary.extend
  split
  · exact h
  next w hw =>
    split
    · exact h
    · refine ⟨h.input, h.dict.modify (f := (·.push c)) (fun v hv => ⟨hv.name, fun b hb => ?_⟩) k _⟩
      rcases List.mem_append.1 hb with hb | hb
      · exact hv.code b hb
      · obtain rfl := List.mem_singleton.1 hb
        exact hc

theorem written_abort (h : m.state.Written) : m.abort.state.Written := by
  refine ⟨?_, ?_⟩
  · show ∀ t ∈ (m.state.withStack []).abandon.input.getD [], t.Lexed
    rw [State.input_abandon]
    exact h.input
  · show (m.state.withStack []).abandon.dict.Written
    rw [State.dict_abandon]
    exact h.dict.abandon

end Machine

/-- A token that was read becomes a cell that can be written. -/
theorem Token.Lexed.written {t : Token} (ht : t.Lexed) {c : Cell} (hc : t.Yields c) :
    c.Written := by
  cases t with
  | int n text =>
      obtain rfl := hc
      exact ⟨n, rfl⟩
  | name text =>
      obtain ⟨hname, r, rfl, rfl⟩ := hc
      exact ⟨ht, hname⟩

/-! ### Sessions -/

namespace Machine

/-- In a session driven by source, every name comes from a token. -/
theorem written_invariant (limit : Limit) :
    TokenInvariant limit Token.Lexed (fun m => m.state.Written) fun _ => True where
  source := Token.lexed_of_mem_tokenize
  unread := fun h => h.input
  act := by
    intro a m hwithin _ h
    refine ⟨?_, fun _ _ => trivial⟩
    cases a with
    | word handle => exact written_executeWord h handle
    | top => exact written_executeTop h
    | pop =>
        simp only [Act.perform, Session.onStack, Outcome.state_map, Outcome.state_mapState]
        exact ⟨h.input, h.dict⟩
    | push vs => exact ⟨h.input, h.dict⟩
    | feed input => exact ⟨hwithin, h.dict⟩
    | write text => exact ⟨h.input, h.dict⟩
    | record e => exact ⟨h.input, h.dict⟩
    | finish =>
        refine ⟨?_, ?_⟩
        · simpa [Act.perform] using h.input
        · simpa [Act.perform] using h.dict.finish
    | define t => exact written_startDefinition h hwithin
    | extend k c =>
        obtain ⟨t, ht, hc⟩ := hwithin
        exact written_extend h k (ht.written hc)
    | endDefinition =>
        have hend := effectBound_written.primitive (.system .semicolon) m.state h
        rw [Primitive.run, SystemWord.run, Outcome.state_map] at hend
        rwa [Act.perform, Outcome.state_mapState]
    | abort => exact written_abort h
  plain := fun _ => trivial

/-- In a session driven by source all definitions come from source text. -/
theorem written_of_reaches {limit : Limit} {m : Machine} (h : Session.Reaches limit m) :
    m.state.Written := by
  refine (written_invariant limit).of_reaches ⟨fun t ht => absurd ht List.not_mem_nil, ?_⟩ h
  intro i w hi hw
  have hlt : i < Dictionary.initial.size := (List.getElem?_eq_some_iff.1 hw).1
  omega

end Machine

end ThreadedForth
