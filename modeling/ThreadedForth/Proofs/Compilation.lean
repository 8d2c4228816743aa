import Mathlib.Data.List.Forall2
import ThreadedForth.Proofs.Soundness
/-!
# ThreadedForth.Proofs.Compilation

What a definition in source text leaves behind.

`Dictionary.CompilesTo` says which cell a token of a definition becomes: an integer becomes a
literal, and the name of a word that is not immediate becomes a call of it. `State.compiling` is
the state in the middle of a definition, as a function of the state the definition began in, the
code so far and the marker after the name, and `State.defined` the state after it; the steps from
one to the other follow the tokens. So `Ready.interpret_marked` knows the whole state in the end,
and with it everything a definition does not touch. If a name in the body means nothing, the
definition stays open at that point (`Ready.interpret_marked_unknown`).

The words named in a definition are looked up below the open word. That is why the state the
definition began in says what they mean, even if one of them has the name of the new word.
-/

namespace ThreadedForth

/-- The token that begins a definition. -/
def Token.colon : Token := .name SystemWord.colon.name

/-- The token that ends a definition. -/
def Token.semicolon : Token := .name SystemWord.semicolon.name

/-- The tokens of a definition, given the one that names the new word and those of its body. -/
def definition (x : Token) (body : List Token) : List Token :=
  .colon :: x :: (body ++ [.semicolon])

/-- What stands between the name of a new word and its body. -/
def Token.marking (immediate : Bool) : List Token :=
  if immediate then [.name immediateMarker] else []

/-- What the token becomes in a definition. -/
inductive Dictionary.CompilesTo (d : Dictionary) : Token → Cell → Prop where
  /-- An integer is a literal. -/
  | int (n : Int) (text : String) : d.CompilesTo (.int n text) (.literal (.int n))
  /-- A name other than `;` is a call, if its word is not immediate. -/
  | name {name : String} {h : Nat} {w : Word} : name ≠ SystemWord.semicolon.name →
      d.lookup name = some h → d.entries[h]? = some w → w.immediate = false →
      d.CompilesTo (.name name) (.word w.ref)

/-- What is found for every item of a list makes up a list. -/
theorem exists_forall₂ {α β : Type} {R : α → β → Prop} {as : List α}
    (h : ∀ a ∈ as, ∃ b, R a b) : ∃ bs, List.Forall₂ R as bs := by
  induction as with
  | nil => exact ⟨[], .nil⟩
  | cons a as ih =>
      obtain ⟨b, hb⟩ := h a List.mem_cons_self
      obtain ⟨bs, hbs⟩ := ih fun c hc => h c (List.mem_cons_of_mem a hc)
      exact ⟨b :: bs, .cons hb hbs⟩

/-! ### The states of a definition -/

namespace State

/-- The state in the middle of a definition that began in `s`. -/
def compiling (s : State) (name : String) (code : List Cell) (immediate : Bool := false) : State :=
  { s with
    mode := .compile
    dict := ⟨s.dict.entries ++ [{ name, handle := s.dict.size, immediate, code }], some s.dict.size⟩
    log := .defining name s.dict.size :: s.log }

/-- The state after a definition that began in `s`. -/
def defined (s : State) (name : String) (code : List Cell) (immediate : Bool := false) : State :=
  { s with
    dict := ⟨s.dict.entries ++
      [{ name, handle := s.dict.size, immediate, sealed := true, code }], none⟩
    log := .finished name code.length :: .defining name s.dict.size :: s.log }

variable {s : State} {name : String} {code : List Cell} {immediate : Bool}

theorem withInput_compiling (input : Option (List Token)) :
    (s.compiling name code immediate).withInput input =
      (s.withInput input).compiling name code immediate := rfl

/-- The open word is the last entry. -/
theorem modify_compiling (f : Word → Word) :
    (s.compiling name code immediate).dict.modify s.dict.size f =
      ⟨s.dict.entries ++ [f { name, handle := s.dict.size, immediate, code }],
        some s.dict.size⟩ := by
  simp only [compiling, Dictionary.modify, Dictionary.size]
  rw [List.modify, ← Nat.add_zero s.dict.entries.length, List.modifyTailIdx_add]
  rfl

/-- Names are looked up below the open word. -/
theorem lookupOutside_compiling (wanted : String) :
    (s.compiling name code immediate).dict.lookupOutside wanted = s.dict.lookup wanted := by
  simp [compiling, Dictionary.lookupOutside, Dictionary.lookup, Dictionary.size]

theorem entries_compiling {h : Nat} {w : Word} (hw : s.dict.entries[h]? = some w) :
    (s.compiling name code immediate).dict.entries[h]? = some w := by
  have hlt : h < s.dict.entries.length := (List.getElem?_eq_some_iff.1 hw).1
  rw [compiling, List.getElem?_append_left hlt]
  exact hw

theorem word?_defined : (s.defined name code immediate).dict.word? s.dict.size =
    some { name, handle := s.dict.size, immediate, sealed := true, code } := by
  rw [Dictionary.word?, itemAt?_natCast]
  exact List.getElem?_concat_length

/-- The new word is the one its name means. -/
theorem lookup_defined : (s.defined name code immediate).dict.lookup name = some s.dict.size :=
  (lastIndex?_concat _ _ _).trans (if_pos (by simp [Word.answersTo]))

end State

/-! ### Tokens of a definition -/

namespace Machine

variable {limit : Limit} {m : Machine} {s : State} {name : String} {code : List Cell}
  {immediate : Bool}

theorem extend_compiling (c : Cell) :
    (m.withState (s.compiling name code immediate)).extend s.dict.size c =
      .ok () (m.withState (s.compiling name (code ++ [c]) immediate)) := by
  have hextend : (s.compiling name code immediate).dict.extend s.dict.size c =
      .ok () (s.compiling name (code ++ [c]) immediate).dict := by
    have hlast : (s.compiling name code immediate).dict.entries[s.dict.size]? =
        some { name, handle := s.dict.size, immediate, code } := List.getElem?_concat_length
    simp only [Dictionary.extend, hlast, State.modify_compiling]
    rfl
  simp only [extend, state_withState, hextend]
  rfl

theorem dispatch_compiling {t : Token} {c : Cell} (hc : s.dict.CompilesTo t c) :
    (m.withState (s.compiling name code immediate)).dispatch limit t =
      .ok () (m.withState (s.compiling name (code ++ [c]) immediate)) := by
  show (m.withState (s.compiling name code immediate)).compileToken limit s.dict.size t = _
  cases hc with
  | int n text => exact extend_compiling (.literal (.int n))
  | name hname hl hw himmediate =>
      simp only [compileToken, if_neg hname, compileName, state_withState,
        State.lookupOutside_compiling, hl, State.entries_compiling hw, himmediate]
      exact extend_compiling _

/-- A name that means nothing leaves the definition as it was. -/
theorem dispatch_unknown {wanted : String} (hname : wanted ≠ SystemWord.semicolon.name)
    (hl : s.dict.lookup wanted = none) :
    (m.withState (s.compiling name code immediate)).dispatch limit (.name wanted) =
      .fail (.raise (.unknown wanted)) (m.withState (s.compiling name code immediate)) := by
  show (m.withState (s.compiling name code immediate)).compileToken limit s.dict.size
    (.name wanted) = _
  simp only [compileToken, if_neg hname, compileName, state_withState,
    State.lookupOutside_compiling, hl]

/-- The name of a definition, and the marker after it if there is one. -/
theorem dispatch_define {x : Token} {rest : List Token} (hactive : s.dict.active = none)
    (hrest : immediate = false → ∀ t, rest.head? = some t → t.isImmediateMarker = false) :
    (m.withState { s.withInput (some (Token.marking immediate ++ rest)) with
      mode := .compile }).dispatch limit x =
        .ok () (m.withState ((s.withInput (some rest)).compiling x.text [] immediate)) := by
  have hdispatch : ∀ input, (m.withState { s.withInput input with mode := .compile }).dispatch
      limit x = .ok () ((m.withState { s.withInput input with mode := .compile }).startDefinition
        x) := by
    intro input
    simp [dispatch, hactive, State.withInput]
  rw [hdispatch]
  cases immediate with
  | true =>
      have hmark : ((s.compiling x.text []).dict.modify s.dict.size Word.markImmediate) =
          (s.compiling x.text [] true).dict := State.modify_compiling _
      show Outcome.ok () (m.withState { s.compiling x.text [] with
        input := some rest
        dict := (s.compiling x.text []).dict.modify s.dict.size Word.markImmediate }) = _
      rw [hmark]
      rfl
  | false =>
      cases rest with
      | nil => rfl
      | cons t rest =>
          have ht : t.isImmediateMarker = false := hrest rfl t rfl
          simp only [startDefinition, State.define, State.record, state_withState, State.withInput,
            Token.marking, Bool.false_eq_true, if_false, List.nil_append, ht]
          rfl

/-- The end of a definition. -/
theorem dispatch_semicolon (hmode : s.mode = .interpret) :
    (m.withState (s.compiling name code immediate)).dispatch limit .semicolon =
      .ok () (m.withState (s.defined name code immediate)) := by
  have hdispatch : (m.withState (s.compiling name code immediate)).dispatch limit .semicolon =
      (s.compiling name code immediate).endDefinition.mapState m.withState := rfl
  have hactive : (s.compiling name code immediate).dict.active = some s.dict.size := rfl
  have hword : (s.compiling name code immediate).dict.activeWord? =
      some { name, handle := s.dict.size, immediate, code } := List.getElem?_concat_length
  have hfinish : (s.compiling name code immediate).dict.finish =
      (s.defined name code immediate).dict := by
    simp only [Dictionary.finish, hactive, State.modify_compiling]
    rfl
  have hend : (s.compiling name code immediate).endDefinition =
      .ok () { (s.compiling name code immediate).finish with mode := .interpret } := rfl
  rw [hdispatch, hend]
  simp only [State.finish, hword, hfinish]
  rw [← hmode]
  rfl

/-- After a token that was dispatched with success the others follow. -/
theorem consume_of_dispatch {t : Token} {ts : List Token} {m' : Machine}
    (h : (m.withState (s.withInput (some ts))).dispatch limit t = .ok () m') :
    (m.withState (s.withInput (some (t :: ts)))).consume limit = m'.consume limit := by
  rw [consume_cons rfl]
  show ((m.withState (s.withInput (some ts))).dispatch limit t).bind _ = _
  rw [h]
  rfl

/-- A token that could not be dispatched is the last one. -/
theorem consume_of_dispatch_fail {t : Token} {ts : List Token} {f : Fault} {m' : Machine}
    (h : (m.withState (s.withInput (some ts))).dispatch limit t = .fail f m') :
    (m.withState (s.withInput (some (t :: ts)))).consume limit = .fail f m' := by
  rw [consume_cons rfl]
  show ((m.withState (s.withInput (some ts))).dispatch limit t).bind _ = _
  rw [h]
  rfl

/-- The body of a definition. -/
theorem consume_compiling {ts : List Token} {cs : List Cell} {rest : List Token}
    (h : List.Forall₂ s.dict.CompilesTo ts cs) : ∀ (code : List Cell),
      (m.withState ((s.withInput (some (ts ++ rest))).compiling name code immediate)).consume
          limit =
        (m.withState ((s.withInput (some rest)).compiling name (code ++ cs) immediate)).consume
          limit := by
  induction h with
  | nil => simp
  | @cons t c ts cs hc _ ih =>
      intro code
      have hnext : (m.withState ((s.withInput (some (ts ++ rest))).compiling name code
          immediate)).dispatch limit t = .ok () (m.withState ((s.withInput (some (ts ++
            rest))).compiling name (code ++ [c]) immediate)) := dispatch_compiling hc
      -- The input is read from the state the definition began in.
      rw [← State.withInput_compiling] at hnext ⊢
      rw [List.cons_append, consume_of_dispatch hnext, ih, List.append_assoc]
      rfl

/-! ### Whole definitions -/

/-- Source is about to be interpreted, a word may be run, and `:` begins a definition. -/
structure Ready (limit : Limit) (m : Machine) : Prop where
  /-- The machine is sound, with all the words of a fresh one. -/
  sound : m.Sound .initial
  /-- No word is running. -/
  idle : m.calls = .empty
  /-- The interpreter is not compiling. -/
  mode_eq : m.state.mode = .interpret
  /-- `:` means what it means in a fresh interpreter. -/
  colon : m.state.dict.lookup SystemWord.colon.name =
    Dictionary.initial.lookup SystemWord.colon.name
  /-- There is room for a call. -/
  room : 0 < limit.room

theorem offers_colon : Dictionary.initial.Offers 0
    { name := ":", handle := 0, sealed := true, code := [.primitive (.system .colon)] } :=
  ⟨rfl, rfl, rfl⟩

namespace Ready

/-- Between two commands of a session driven by source that leaves `:` alone. -/
theorem of_reaches {n : Int} (hm : Session.Reaches (.atMost n) m) (hn : 1 ≤ n)
    (hmode : m.state.mode = .interpret)
    (hcolon : m.state.dict.lookup SystemWord.colon.name =
      Dictionary.initial.lookup SystemWord.colon.name) : m.Ready (.atMost n) where
  sound := .of_reaches hm
  idle := calls_of_reaches hm
  mode_eq := hmode
  colon := hcolon
  room := by
    simp only [Limit.room]
    omega

theorem active_eq_none (h : m.Ready limit) : m.state.dict.active = none := by
  have hcoherent := h.sound.state.coherent
  rw [h.mode_eq] at hcoherent
  exact hcoherent.active_eq_none

/-- A colon begins a definition. -/
theorem dispatch_colon (h : m.Ready limit) (input : Option (List Token)) :
    (m.withState (m.state.withInput input)).dispatch limit .colon =
      .ok () (m.withState { m.state.withInput input with mode := .compile }) := by
  have hlookup : m.state.dict.lookup SystemWord.colon.name = some 0 := by
    rw [h.colon]
    decide
  have hword : (m.state.withInput input).dict.word? (0 : Nat) = some
      { name := ":", handle := 0, sealed := true, code := [.primitive (.system .colon)] } := by
    rw [Dictionary.word?, itemAt?_natCast]
    exact (h.sound.keeps offers_colon).1
  obtain ⟨free, hfree⟩ : ∃ free, limit.room = free + 1 :=
    Nat.exists_eq_succ_of_ne_zero (Nat.ne_of_gt h.room)
  have hrun : evalCall limit limit.room (0 : Nat) (m.state.withInput input) =
      .ok () { m.state.withInput input with mode := .compile } := by
    rw [hfree, evalCall_succ limit hword]
    simp [evalCode, evalCell, Primitive.run, SystemWord.run, State.beginDefinition,
      Dictionary.activeWord?, h.active_eq_none, State.withInput]
  have hmode : (m.withState (m.state.withInput input)).state.mode = .interpret := h.mode_eq
  have hactive : (m.withState (m.state.withInput input)).state.dict.active = none :=
    h.active_eq_none
  have hfound : (m.withState (m.state.withInput input)).state.dict.lookup SystemWord.colon.name =
      some 0 := hlookup
  have hidle : (m.withState (m.state.withInput input)).calls = .empty := h.idle
  rw [dispatch, hmode]
  simp only [interpretToken, Token.colon, hactive, Option.isSome_none, Bool.false_eq_true,
    if_false, runName, hfound]
  rw [executeWord_of_idle hidle, state_withState, hrun]
  rfl

/-- A definition up to the first token of its body. -/
theorem consume_definition (h : m.Ready limit) (x : Token) {ts : List Token}
    (hhead : immediate = false → ∀ t, ts.head? = some t → t.isImmediateMarker = false) :
    (m.withState (m.state.withInput (some (definition x (Token.marking immediate ++ ts))))).consume
        limit =
      (m.withState ((m.state.withInput (some (ts ++ [.semicolon]))).compiling x.text []
        immediate)).consume limit := by
  have hrest : immediate = false → ∀ t, (ts ++ [Token.semicolon]).head? = some t →
      t.isImmediateMarker = false := by
    intro hunmarked
    cases ts with
    | nil =>
        rintro t ht
        obtain rfl := Option.some.inj ht
        decide
    | cons t ts => exact hhead hunmarked
  have hbody : definition x (Token.marking immediate ++ ts) =
      .colon :: x :: (Token.marking immediate ++ (ts ++ [Token.semicolon])) := by
    rw [definition, List.append_assoc]
  rw [hbody]
  exact (consume_of_dispatch (h.dispatch_colon _)).trans
    (consume_of_dispatch (s := { m.state with mode := .compile })
      (dispatch_define h.active_eq_none hrest))

/-- A definition whose tokens all become cells adds one entry, with these cells for its code;
but for the log, nothing else changes. -/
theorem interpret_marked (h : m.Ready limit) (x : Token) {ts : List Token} {code : List Cell}
    (hts : List.Forall₂ m.state.dict.CompilesTo ts code)
    (hhead : immediate = false → ∀ t, ts.head? = some t → t.isImmediateMarker = false)
    (final : Bool) :
    m.interpret limit final (definition x (Token.marking immediate ++ ts)) =
      .ok () (m.withState (m.state.defined x.text code immediate)) := by
  have hmode : (m.state.withInput (some [])).mode = .interpret := h.mode_eq
  have hconsume := calc
    (m.withState (m.state.withInput (some (definition x (Token.marking immediate ++ ts))))).consume
        limit
      = (m.withState ((m.state.withInput (some (ts ++ [.semicolon]))).compiling x.text []
          immediate)).consume limit := h.consume_definition x hhead
    _ = (m.withState ((m.state.withInput (some [Token.semicolon])).compiling x.text code
          immediate)).consume limit := consume_compiling hts []
    _ = (m.withState ((m.state.withInput (some [])).defined x.text code immediate)).consume
          limit :=
        consume_of_dispatch (s := m.state.compiling x.text code immediate)
          (dispatch_semicolon hmode)
    _ = .ok () (m.withState ((m.state.withInput (some [])).defined x.text code immediate)) :=
        consume_of_pending_eq_zero rfl
  -- The definition is closed again, so the source may end here.
  have hdone : (m.withState ((m.state.withInput (some [])).defined x.text code
      immediate)).state.mode = .interpret := h.mode_eq
  unfold interpret
  simp only [hconsume, hdone]
  simp
  rfl

/-- A definition without a marker. -/
theorem interpret_definition (h : m.Ready limit) (x : Token) {ts : List Token} {code : List Cell}
    (hts : List.Forall₂ m.state.dict.CompilesTo ts code)
    (hhead : ∀ t, ts.head? = some t → t.isImmediateMarker = false) (final : Bool) :
    m.interpret limit final (definition x ts) =
      .ok () (m.withState (m.state.defined x.text code)) := by
  have hmarked := h.interpret_marked x hts (fun _ : false = false => hhead) final
  simpa [Token.marking] using hmarked

/-- At a name that means nothing a definition fails, and is left open with the cells of the
tokens before. -/
theorem interpret_marked_unknown (h : m.Ready limit) (x : Token) {ts rest : List Token}
    {code : List Cell} {wanted : String} (hts : List.Forall₂ m.state.dict.CompilesTo ts code)
    (hname : wanted ≠ SystemWord.semicolon.name) (hl : m.state.dict.lookup wanted = none)
    (hhead : immediate = false → ∀ t, (ts ++ .name wanted :: rest).head? = some t →
      t.isImmediateMarker = false) (final : Bool) :
    m.interpret limit final
        (definition x (Token.marking immediate ++ (ts ++ .name wanted :: rest))) =
      .fail (.raise (.unknown wanted))
        (m.withState (m.state.compiling x.text code immediate)) := by
  have hfail : (m.withState ((m.state.withInput (some (rest ++ [Token.semicolon]))).compiling x.text
      code immediate)).dispatch limit (.name wanted) = .fail (.raise (.unknown wanted))
        (m.withState ((m.state.withInput (some (rest ++ [Token.semicolon]))).compiling x.text code
          immediate)) := dispatch_unknown hname hl
  have hconsume := calc
    (m.withState (m.state.withInput (some (definition x
        (Token.marking immediate ++ (ts ++ .name wanted :: rest)))))).consume limit
      = (m.withState ((m.state.withInput (some ((ts ++ .name wanted :: rest) ++
          [Token.semicolon]))).compiling x.text [] immediate)).consume limit :=
        h.consume_definition x hhead
    _ = (m.withState ((m.state.withInput (some (.name wanted :: (rest ++
          [Token.semicolon])))).compiling x.text code immediate)).consume limit := by
        rw [List.append_assoc]
        exact consume_compiling hts []
    _ = .fail (.raise (.unknown wanted)) (m.withState ((m.state.withInput
          (some (rest ++ [Token.semicolon]))).compiling x.text code immediate)) :=
        consume_of_dispatch_fail (s := m.state.compiling x.text code immediate) hfail
  unfold interpret
  simp only [hconsume]
  rfl

end Ready

end Machine

end ThreadedForth
