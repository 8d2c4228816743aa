import ThreadedForth.Proofs.Compilation
import ThreadedForth.Proofs.Provenance
/-!
# ThreadedForth.Proofs.RoundTrip

The source form of a definition defines the same word again.

The source form of a word is the texts of its tokens with blanks between them, so it is read as
these tokens (`tokenize_intercalate`). They are `:`, the name, a marker or none, one token for each
cell, and `;`. A cell is spelled by a token that is read back from the text of the cell and becomes
the cell in a definition (`Dictionary.Spells`). That every cell has one is known from where the
cells came from (`Word.Written`), as far as the names still mean the words that they meant and the
numbers are not too long to be written.
-/

namespace ThreadedForth

/-- The token is read from the source form of the cell, and becomes the cell in a definition. -/
structure Dictionary.Spells (d : Dictionary) (t : Token) (c : Cell) : Prop where
  /-- The token is what its text is read as. -/
  lexed : t.Lexed
  /-- Its text is the source form of the cell. -/
  source : c.source? = some t.text
  /-- It becomes the cell. -/
  compiles : d.CompilesTo t c

namespace Dictionary

variable {d : Dictionary} {mode : Mode} {i : Nat}

theorem Coherent.exists_spells (hd : d.Coherent mode) {c : Cell} (hc : c.Written)
    (hadmits : d.Admits i c)
    (href : ∀ r, c = .word r → ∃ k : Nat, d.lookup r.name = some k ∧ r.handle = (k : Int))
    (hdigits : ∀ n, c = .literal (.int n) → n.natAbs < Numeral.tooLarge) :
    ∃ t, d.Spells t c := by
  cases c with
  | primitive p => exact absurd hc id
  | literal v =>
      obtain ⟨n, rfl⟩ := hc
      have hn := hdigits n rfl
      have hsource : (Cell.literal (.int n)).source? = some (Numeral.decimal n) := by
        rw [Cell.source?, Value.describe?, Numeral.written?, if_pos hn]
      exact ⟨_, Token.lexed_int hn, hsource, .int n _⟩
  | word r =>
      obtain ⟨k, hl, hk⟩ := href r rfl
      obtain ⟨j, w, hw, rfl, -, himmediate⟩ := hadmits
      obtain rfl : j = k := Int.ofNat.inj hk
      have hcell : w.ref = ⟨j, w.name⟩ := by rw [Word.ref, hd.handle_eq hw.1]
      exact ⟨_, hc.1, rfl, hcell ▸ .name hc.2 hl hw.1 himmediate⟩

variable {ts : List Token} {code : List Cell}

theorem source?_of_spells (h : List.Forall₂ d.Spells ts code) :
    code.mapM Cell.source? = some (ts.map Token.text) := by
  induction h with
  | nil => rfl
  | cons hc _ ih => simp [List.mapM_cons, hc.source, ih]

theorem lexed_of_spells (h : List.Forall₂ d.Spells ts code) : ∀ t ∈ ts, t.Lexed := by
  have hboth : List.Forall₂ (fun t c => t.Lexed ∧ d.Spells t c) ts code :=
    h.imp fun _ _ hc => ⟨hc.lexed, hc⟩
  exact ((List.forall₂_and_left ts code).1 hboth).1

/-- The first token is the marker of an immediate word only if the first cell calls a word of that
name. -/
theorem head_of_spells (h : List.Forall₂ d.Spells ts code)
    (hcode : ∀ r, code.head? = some (.word r) → r.name ≠ Token.immediateMarker) :
    ∀ t, ts.head? = some t → t.isImmediateMarker = false := by
  cases h with
  | nil => exact nofun
  | cons hc _ =>
      rintro t ht
      obtain rfl := Option.some.inj ht
      obtain ⟨-, hsource, hcompiles⟩ := hc
      cases hcompiles with
      | int n text => rfl
      | @name name k w _ _ _ _ =>
          have hname : w.name = name := Option.some.inj hsource
          have hne := hcode w.ref rfl
          rw [Word.name_ref, hname] at hne
          simpa [Token.isImmediateMarker] using hne

end Dictionary

/-- The tokens that a definition has by itself are read as what they are. -/
theorem Token.lexed_of_frame {t : Token}
    (ht : t ∈ [Token.colon, .semicolon, .name immediateMarker]) : t.Lexed := by
  have hread : tokenize ": ; immediate" = [Token.colon, .semicolon, .name immediateMarker] := by
    cbv
  exact lexed_of_mem_tokenize (hread ▸ ht)

/-- The source form of a word is read as the tokens of a definition. -/
theorem Word.exists_source {d : Dictionary} {w : Word} {x : Token} {ts : List Token}
    (hx : x.Lexed) (hname : x.text = w.name) (hts : List.Forall₂ d.Spells ts w.code) :
    ∃ text, w.source? = some text ∧
      tokenize text = definition x (Token.marking w.immediate ++ ts) := by
  refine ⟨String.intercalate " "
    ((definition x (Token.marking w.immediate ++ ts)).map Token.text), ?_, ?_⟩
  · simp only [source?, Dictionary.source?_of_spells hts, Option.map_some, ← hname]
    cases w.immediate <;> simp [definition, Token.marking, Token.colon, Token.semicolon,
      SystemWord.name]
  · refine tokenize_intercalate fun t ht => ?_
    simp only [definition, List.mem_cons, List.mem_append, List.not_mem_nil, or_false] at ht
    rcases ht with rfl | rfl | (ht | ht) | rfl
    · exact Token.lexed_of_frame (by simp)
    · exact hx
    · cases hmark : w.immediate with
      | false => simp [hmark, Token.marking] at ht
      | true =>
          obtain rfl : t = .name Token.immediateMarker := by
            simpa [hmark, Token.marking] using ht
          exact Token.lexed_of_frame (by simp)
    · exact Dictionary.lexed_of_spells hts t ht
    · exact Token.lexed_of_frame (by simp)

namespace Session

/-- The source form of a definition defines the same word again. In a session driven by source, let
`:` have its own meaning, and let an entry that is not built in call only words that its names still
mean. Let its numbers have as many digits as may be written, and let it not begin, without being
immediate itself, with a call of a word `immediate`. Then its source form is a text that is executed
with success. It adds one finished and visible entry, with the name, the flag and the code of the
old one, and touches neither the stack nor the output. -/
theorem source_round_trip {n : Int} {m : Machine} {h : Nat} {w : Word}
    (hm : Reaches (.atMost n) m) (hn : 1 ≤ n) (hmode : m.state.mode = .interpret)
    (hcolon : m.state.dict.lookup SystemWord.colon.name =
      Dictionary.initial.lookup SystemWord.colon.name)
    (huser : Dictionary.initial.size ≤ h) (hw : m.state.dict.entries[h]? = some w)
    (hrefs : ∀ r, .word r ∈ w.code →
      ∃ k : Nat, m.state.dict.lookup r.name = some k ∧ r.handle = (k : Int))
    (hdigits : ∀ k, .literal (.int k) ∈ w.code →
      (Nat.toDigits 10 k.natAbs).length ≤ Numeral.digitLimit)
    (hhead : w.immediate = false → ∀ r, w.code.head? = some (.word r) →
      r.name ≠ Token.immediateMarker) :
    ∃ text, (perform (.atMost n) m (.source h)).2 = .ok (.text text) m ∧
      ∀ final, ∃ (m' : Machine) (v : Word),
        (perform (.atMost n) m (.execute text final)).2 = .ok .nothing m' ∧
        m'.state.stack = m.state.stack ∧ m'.state.out = m.state.out ∧
        m'.state.dict.entries = m.state.dict.entries ++ [v] ∧ v.sealed = true ∧
        v.hidden = false ∧ v.name = w.name ∧ v.immediate = w.immediate ∧ v.code = w.code := by
  have hready : m.Ready (.atMost n) := .of_reaches hm hn hmode hcolon
  have hd := hready.sound.state.coherent
  obtain ⟨⟨x, hx, hname⟩, hcode⟩ := (Machine.written_of_reaches hm).dict huser hw
  obtain ⟨ts, hts⟩ : ∃ ts, List.Forall₂ (flip m.state.dict.Spells) w.code ts := by
    refine exists_forall₂ fun c hc => ?_
    refine hd.exists_spells (hcode c hc) (hd.admits hw c hc) (fun r hr => hrefs r (hr ▸ hc)) ?_
    intro k hk
    exact (Numeral.lt_tooLarge_iff k.natAbs).2 (hdigits k (hk ▸ hc))
  have hts : List.Forall₂ m.state.dict.Spells ts w.code := hts.flip
  obtain ⟨text, hsource, htokens⟩ := Word.exists_source hx hname hts
  refine ⟨text, ?_, fun final => ?_⟩
  · have hword : m.state.dict.word? h = some w := by
      rw [Dictionary.word?, itemAt?_natCast]
      exact hw
    simp only [perform, sourceAt, hword, sourceOf, hsource]
    rfl
  · have hexecute : m.execute (.atMost n) final text =
        .ok () (m.withState (m.state.defined x.text w.code w.immediate)) := by
      rw [Machine.execute, htokens]
      exact hready.interpret_marked x (hts.imp fun _ _ h => h.compiles)
        (fun hunmarked => Dictionary.head_of_spells hts (hhead hunmarked)) final
    refine ⟨m.withState (m.state.defined x.text w.code w.immediate), _, ?_, rfl, rfl, rfl, rfl, rfl,
      hname, rfl, rfl⟩
    simp only [perform, hexecute]
    rfl

/-- A word called `7`, which is immediate and calls a word whose name begins with a digit. -/
theorem source_round_trip_seven :
    ∃ (m m' : Machine) (w v : Word), Reaches (.atMost 9) m ∧ m.state.dict.entries[24]? = some w ∧
      (perform (.atMost 9) m (.source 24)).2 = .ok (.text ": 7 immediate 2x -12 ;") m ∧
      (perform (.atMost 9) m (.execute ": 7 immediate 2x -12 ;" true)).2 = .ok .nothing m' ∧
      m'.state.stack = m.state.stack ∧ m'.state.out = m.state.out ∧
      m'.state.dict.entries = m.state.dict.entries ++ [v] ∧ v.sealed = true ∧
      v.hidden = false ∧ v.name = w.name ∧ v.immediate = w.immediate ∧ v.code = w.code := by
  obtain ⟨m, hm, hmode, hcolon, hw, hlookup⟩ : ∃ m : Machine, Reaches (.atMost 9) m ∧
      m.state.mode = .interpret ∧
      m.state.dict.lookup SystemWord.colon.name =
        Dictionary.initial.lookup SystemWord.colon.name ∧
      m.state.dict.entries[24]? =
        some ⟨"7", 24, true, false, true, [.word ⟨23, "2x"⟩, .literal (.int (-12))]⟩ ∧
      m.state.dict.lookup "2x" = some 23 :=
    ⟨_, .perform (.execute ": 2x 2 * ; : 7 immediate 2x -12 ; 5" true) trivial .fresh, by cbv,
      by cbv, by cbv, by cbv⟩
  obtain ⟨text, htext, hround⟩ := source_round_trip (h := 24) hm (by decide) hmode hcolon
    (by decide) hw
    (by
      intro r hr
      obtain rfl : r = ⟨23, "2x"⟩ := by simpa using hr
      exact ⟨23, hlookup, rfl⟩)
    (by
      intro k hk
      obtain rfl : k = -12 := by simpa using hk
      decide)
    (fun h => by cases h)
  obtain rfl : ": 7 immediate 2x -12 ;" = text := by
    have hnumber : Numeral.written? (-12) = some "-12" :=
      Numeral.written?_eq_some_iff.2 ⟨(Numeral.lt_tooLarge_iff _).2 (by decide), by decide⟩
    have hword : m.state.dict.word? 24 = m.state.dict.entries[24]? := itemAt?_natCast ..
    simpa [perform, sourceAt, sourceOf, hword, hw, Word.source?, Cell.source?, Value.describe?,
      hnumber, Token.immediateMarker] using htext
  obtain ⟨m', v, hv⟩ := hround true
  exact ⟨m, m', _, v, hm, hw, htext, hv⟩

end Session

end ThreadedForth
