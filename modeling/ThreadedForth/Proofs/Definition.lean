import Mathlib
import ThreadedForth.Proofs.Compilation
/-!
# ThreadedForth.Proofs.Definition

A definition compiles the body that is written, token by token.

`Dictionary.cellOf?` is the cell that a token stands for, if it stands for one: an integer for
itself, and a name for the newest visible word it has before the definition begins. A body in which
no token is run (`Token.Ordinary`) is compiled to the cells of its tokens, in this order, as far as
there are any: either all its tokens have one and the definition is completed, or it stops at the
first name that means nothing (`Dictionary.cells_or_unknown`), with the cells so far.
-/

namespace ThreadedForth

/-- The token does not end a definition, and it does not name an immediate word. -/
def Token.Ordinary (d : Dictionary) (t : Token) : Prop :=
  t ≠ .semicolon ∧ ∀ name h w, t = .name name → d.lookup name = some h →
    d.entries[h]? = some w → w.immediate = false

namespace Dictionary

variable {d : Dictionary} {t : Token} {c : Cell}

/-- The cell a token stands for. -/
def cellOf? (d : Dictionary) : Token → Option Cell
  | .int n _ => some (.literal (.int n))
  | .name name => (d.lookup name).map fun h : Nat => .word ⟨h, name⟩

theorem cellOf?_eq_none (h : d.cellOf? t = none) : ∃ name, t = .name name ∧ d.lookup name = none := by
  cases t with
  | int n text => cases h
  | name name => exact ⟨name, rfl, Option.map_eq_none_iff.1 h⟩

/-- A token that stands for a cell becomes it. -/
theorem Coherent.compilesTo {mode : Mode} (hd : d.Coherent mode) (ht : t.Ordinary d)
    (hc : d.cellOf? t = some c) : d.CompilesTo t c := by
  cases t with
  | int n text =>
      obtain rfl := Option.some.inj hc
      exact .int n text
  | name name =>
      obtain ⟨h, hl, rfl⟩ := Option.map_eq_some_iff.1 hc
      obtain ⟨w, hw, ha⟩ := lookup_eq_some hl
      have hname : name ≠ SystemWord.semicolon.name := fun heq => ht.1 (congrArg Token.name heq)
      have href : w.ref = ⟨h, name⟩ := by
        rw [Word.ref, hd.handle_eq hw, (answersTo_iff.1 ha).1]
      rw [← href]
      exact .name hname hl hw (ht.2 name h w rfl hl hw)

/-- Either every token stands for a cell, or there is a first one that does not, and it is a name
that means nothing. -/
theorem cells_or_unknown (d : Dictionary) (ts : List Token) :
    (∃ code, List.Forall₂ (fun t c => d.cellOf? t = some c) ts code) ∨
      ∃ before name rest code, ts = before ++ .name name :: rest ∧ d.lookup name = none ∧
        List.Forall₂ (fun t c => d.cellOf? t = some c) before code := by
  induction ts with
  | nil => exact .inl ⟨[], .nil⟩
  | cons t ts ih =>
      cases hc : d.cellOf? t with
      | none =>
          obtain ⟨name, rfl, hl⟩ := cellOf?_eq_none hc
          exact .inr ⟨[], name, ts, [], rfl, hl, .nil⟩
      | some c =>
          rcases ih with ⟨code, hcode⟩ | ⟨before, name, rest, code, rfl, hl, hcode⟩
          · exact .inl ⟨c :: code, .cons hc hcode⟩
          · exact .inr ⟨t :: before, name, rest, c :: code, rfl, hl, .cons hc hcode⟩

theorem exists_lookup_of_cells {ts : List Token} {code : List Cell}
    (hcode : List.Forall₂ (fun t c => d.cellOf? t = some c) ts code) {name : String}
    (hname : .name name ∈ ts) : ∃ h, d.lookup name = some h := by
  induction hcode with
  | nil => exact absurd hname List.not_mem_nil
  | @cons t c ts code hc _ ih =>
      rcases List.mem_cons.1 hname with rfl | hname
      · obtain ⟨h, hl, -⟩ := Option.map_eq_some_iff.1 hc
        exact ⟨h, hl⟩
      · exact ih hname

end Dictionary

namespace Machine.Ready

variable {limit : Limit} {m : Machine} {x : Token} {ts : List Token} {code : List Cell}
  {immediate : Bool}

theorem compilesTo (h : m.Ready limit) (hts : ∀ t ∈ ts, t.Ordinary m.state.dict)
    (hcode : List.Forall₂ (fun t c => m.state.dict.cellOf? t = some c) ts code) :
    List.Forall₂ m.state.dict.CompilesTo ts code := by
  have hboth := (List.forall₂_and_left ts code).2 ⟨hts, hcode⟩
  exact hboth.imp fun _ _ hcell => h.sound.state.coherent.compilesTo hcell.1 hcell.2

end Machine.Ready

namespace Session

/-- A definition compiles exactly the body that is written. In a session driven by source, let `:`
have its own meaning, and let the body hold ordinary tokens, after the marker of an immediate word
or none. The definition succeeds if and only if all names in the body have visible definitions. Then
it adds one finished entry, with the cell of each token in turn, and changes nothing else but the
log. Otherwise it fails at the first name without a definition, and leaves the definition open
there, with the cells of the tokens before. -/
theorem definition_compiles_body {n : Int} {m : Machine} {x : Token} {ts : List Token}
    {immediate final : Bool} {y : Outcome Machine Unit} (hm : Reaches (.atMost n) m) (hn : 1 ≤ n)
    (hmode : m.state.mode = .interpret)
    (hcolon : m.state.dict.lookup SystemWord.colon.name =
      Dictionary.initial.lookup SystemWord.colon.name)
    (hts : ∀ t ∈ ts, t.Ordinary m.state.dict)
    (hhead : immediate = false → ∀ t, ts.head? = some t → t.isImmediateMarker = false)
    (hy : y = m.interpret (.atMost n) final (definition x (Token.marking immediate ++ ts))) :
    (y.fault? = none ↔ ∀ name, .name name ∈ ts → ∃ h, m.state.dict.lookup name = some h) ∧
    (y.fault? = none → ∃ code,
      List.Forall₂ (fun t c => m.state.dict.cellOf? t = some c) ts code ∧
      y = .ok () (m.withState (m.state.defined x.text code immediate))) ∧
    (y.fault? ≠ none → ∃ before name rest code, ts = before ++ .name name :: rest ∧
      m.state.dict.lookup name = none ∧
      List.Forall₂ (fun t c => m.state.dict.cellOf? t = some c) before code ∧
      y = .fail (.raise (.unknown name))
        (m.withState (m.state.compiling x.text code immediate))) := by
  have hready : m.Ready (.atMost n) := .of_reaches hm hn hmode hcolon
  rcases m.state.dict.cells_or_unknown ts with
    ⟨code, hcode⟩ | ⟨before, name, rest, code, rfl, hl, hcode⟩
  · have hok : y = .ok () (m.withState (m.state.defined x.text code immediate)) :=
      hy.trans (hready.interpret_marked x (hready.compilesTo hts hcode) hhead final)
    have hnone : y.fault? = none := by rw [hok]; rfl
    have hnames : ∀ name, .name name ∈ ts → ∃ h, m.state.dict.lookup name = some h :=
      fun name => Dictionary.exists_lookup_of_cells hcode
    exact ⟨⟨fun _ => hnames, fun _ => hnone⟩, fun _ => ⟨code, hcode, hok⟩, absurd hnone⟩
  · have hbefore : ∀ t ∈ before, t.Ordinary m.state.dict := fun t ht =>
      hts t (List.mem_append_left _ ht)
    have hname : name ≠ SystemWord.semicolon.name := by
      intro heq
      exact (hts (.name name) (by simp)).1 (congrArg Token.name heq)
    have hfail : y = .fail (.raise (.unknown name))
        (m.withState (m.state.compiling x.text code immediate)) :=
      hy.trans (hready.interpret_marked_unknown x (hready.compilesTo hbefore hcode) hname hl hhead
        final)
    have hsome : y.fault? ≠ none := by simp [hfail]
    refine ⟨⟨fun hnone => absurd hnone hsome, fun hnames => ?_⟩, fun hnone => absurd hnone hsome,
      fun _ => ⟨before, name, rest, code, rfl, hl, hcode, hfail⟩⟩
    obtain ⟨h, hfound⟩ := hnames name (by simp)
    rw [hl] at hfound
    cases hfound

/-- The body of the new `sq` is made of the old one. A definition of `7` stops at `nope`. -/
theorem definition_compiles_body_sq :
    ∃ m : Machine, Reaches (.atMost 9) m ∧
      m.interpret (.atMost 9) true (definition (.name "sq")
        (Token.marking true ++ [.name "sq", .int 3 "+3"])) =
          .ok () (m.withState (m.state.defined "sq" [.word ⟨23, "sq"⟩, .literal (.int 3)] true)) ∧
      m.interpret (.atMost 9) true (definition (.int 7 "7")
        (Token.marking false ++ [.name "sq", .name "nope"])) =
          .fail (.raise (.unknown "nope"))
            (m.withState (m.state.compiling "7" [.word ⟨23, "sq"⟩])) := by
  obtain ⟨m, hm, hmode, hcolon, hsq, hnope, hword⟩ : ∃ m : Machine, Reaches (.atMost 9) m ∧
      m.state.mode = .interpret ∧
      m.state.dict.lookup SystemWord.colon.name =
        Dictionary.initial.lookup SystemWord.colon.name ∧
      m.state.dict.lookup "sq" = some 23 ∧ m.state.dict.lookup "nope" = none ∧
      (m.state.dict.entries[23]?).map Word.immediate = some false :=
    ⟨_, .perform (.execute ": sq dup * ;" true) trivial .fresh, by cbv, by cbv, by cbv, by cbv,
      by cbv⟩
  have hsq' : (Token.name "sq").Ordinary m.state.dict := by
    refine ⟨by decide, fun name h w heq hl hw => ?_⟩
    obtain rfl : "sq" = name := Token.name.inj heq
    obtain rfl : 23 = h := Option.some.inj (hsq.symm.trans hl)
    simpa [hw] using hword
  have hnope' : (Token.name "nope").Ordinary m.state.dict := by
    refine ⟨by decide, fun name h w heq hl hw => ?_⟩
    obtain rfl : "nope" = name := Token.name.inj heq
    rw [hnope] at hl
    cases hl
  have hthree : (Token.int 3 "+3").Ordinary m.state.dict := by
    refine ⟨fun heq => ?_, fun _ _ _ heq => ?_⟩
    · cases heq
    · cases heq
  have hgood : ∀ t ∈ [Token.name "sq", .int 3 "+3"], t.Ordinary m.state.dict := by
    simp [hsq', hthree]
  have hbad : ∀ t ∈ [Token.name "sq", .name "nope"], t.Ordinary m.state.dict := by
    simp [hsq', hnope']
  have hmarked : true = false → ∀ t, [Token.name "sq", .int 3 "+3"].head? = some t →
      t.isImmediateMarker = false := fun h => by cases h
  have hunmarked : false = false → ∀ t, [Token.name "sq", .name "nope"].head? = some t →
      t.isImmediateMarker = false := by
    rintro - t ht
    obtain rfl := Option.some.inj ht
    decide
  refine ⟨m, hm, ?_, ?_⟩
  · obtain ⟨hiff, hok, -⟩ := definition_compiles_body hm (by decide) hmode hcolon hgood hmarked
      (Eq.refl (m.interpret (.atMost 9) true (definition (.name "sq") _)))
    obtain ⟨code, hcode, hy⟩ := hok (hiff.2 (by simp [hsq]))
    obtain rfl : [.word ⟨23, "sq"⟩, .literal (.int 3)] = code := by
      simpa [List.forall₂_cons_left_iff, Dictionary.cellOf?, hsq, eq_comm] using hcode
    exact hy
  · obtain ⟨hiff, -, hfail⟩ := definition_compiles_body hm (by decide) hmode hcolon hbad hunmarked
      (Eq.refl (m.interpret (.atMost 9) true (definition (.int 7 "7") _)))
    have hfault : ¬ ∀ name, .name name ∈ [Token.name "sq", .name "nope"] →
        ∃ h, m.state.dict.lookup name = some h := by
      intro h
      obtain ⟨h, hl⟩ := h "nope" (by simp)
      rw [hnope] at hl
      cases hl
    obtain ⟨before, name, rest, code, hsplit, hl, hcode, hy⟩ := hfail (mt hiff.1 hfault)
    -- The names before `nope` are known, so this is where the body is split.
    obtain ⟨rfl, rfl, rfl⟩ : before = [.name "sq"] ∧ name = "nope" ∧ rest = [] := by
      rcases before with - | ⟨t, - | ⟨u, before⟩⟩
      · simp only [List.nil_append, List.cons.injEq, Token.name.injEq] at hsplit
        rw [← hsplit.1, hsq] at hl
        cases hl
      · simpa [eq_comm] using hsplit
      · simp at hsplit
    obtain rfl : [.word ⟨23, "sq"⟩] = code := by
      simpa [List.forall₂_cons_left_iff, Dictionary.cellOf?, hsq, eq_comm] using hcode
    exact hy

end Session

end ThreadedForth
