import ThreadedForth.Proofs.Decomposition
import ThreadedForth.Proofs.Literal
/-!
# ThreadedForth.Proofs.Spelling

Tokens can be written down again. The text of a token, set off by blanks, is read as this token and
nothing else (`tokenize_intercalate`), whatever characters it is made of: a token comes from a
stretch of text with no blank in it that does not open a comment (`Lexeme.Solid`), and what it is
was decided by that stretch alone (`Token.Lexed`).

The decimal form of an integer is such a text too, if it has one (`Token.lexed_int`), because it is
a literal of this integer (`Numeral.literal_decimal`).
-/

namespace ThreadedForth

/-! ### Decimal numbers -/

namespace Numeral

/-- The decimal digits of a number are digits of this number, by induction on how many there are. -/
theorem Base.digits_toDigits (n : Nat) : Base.decimal.Digits (Nat.toDigits 10 n) n := by
  induction n using Nat.strongRecOn with
  | _ n ih =>
      have hlast : Base.decimal.Digit (n % 10).digitChar (n % 10) :=
        ⟨Nat.mod_lt n (by decide), .inl rfl⟩
      by_cases hn : n < 10
      · rw [Nat.mod_eq_of_lt hn] at hlast
        rw [Nat.toDigits_of_lt_base hn]
        exact .one hlast
      · have happend := Nat.toDigits_append_toDigits (b := 10) (n := n / 10) (d := n % 10)
          (by decide) (by omega) (Nat.mod_lt n (by decide))
        rw [Nat.div_add_mod, Nat.toDigits_of_lt_base (Nat.mod_lt n (by decide))] at happend
        have hmore := (ih (n / 10) (by omega)).more hlast
        rwa [happend, Base.radix, Nat.div_add_mod] at hmore

/-- A number is written as its digits, with a sign in front if it is negative. -/
theorem toList_decimal (n : Int) : (decimal n).toList =
    if n < 0 then '-' :: Nat.toDigits 10 n.natAbs else Nat.toDigits 10 n.natAbs := by
  by_cases hn : n < 0 <;> simp [decimal, hn, Nat.repr_eq_ofList_toDigits]

/-- The decimal form of an integer is a literal of this integer. -/
theorem literal_decimal {n : Int} (h : n.natAbs < tooLarge) : Literal (decimal n).toList n := by
  have hliteral : ∀ s : Sign, signed s.negates n.natAbs = n →
      Literal (s.chars ++ Nat.toDigits 10 n.natAbs) n := by
    intro s hvalue
    have hread := Literal.decimal s (Base.digits_toDigits n.natAbs) ((lt_tooLarge_iff _).1 h)
    rwa [hvalue] at hread
  rw [toList_decimal]
  split
  next hn =>
    have hvalue : signed true n.natAbs = n := by
      rw [signed_true]
      omega
    exact hliteral .minus hvalue
  next hn =>
    have hvalue : signed false n.natAbs = n := by
      rw [signed_false]
      omega
    exact hliteral .absent hvalue

end Numeral

/-! ### Words of a text -/

namespace Lexeme

/-- The characters of a word: no blank, and no opener of a comment by itself. -/
def Solid (cs : List Char) : Prop :=
  cs ≠ [] ∧ (∀ c ∈ cs, Text.isBlank c = false) ∧ cs ≠ ['\\'] ∧ cs ≠ ['(']

/-- They are a word wherever a blank, or nothing, follows. -/
theorem Solid.leads {cs rest : List Char} (h : Solid cs) (hrest : Pauses rest) :
    (Lexeme.word cs).Leads rest := by
  obtain ⟨hne, hblank, hline, hparen⟩ := h
  cases cs with
  | nil => exact absurd rfl hne
  | cons c cs =>
      refine .word hblank ?_ hrest
      rintro ⟨hc, halone⟩
      -- An opener that is all of the word would be a comment; in a longer one it does not stand
      -- alone.
      cases cs with
      | nil => rcases hc with rfl | rfl <;> simp at hline hparen
      | cons d cs => simpa [hblank d (by simp)] using halone d rfl

/-- What is a word somewhere in a text is solid, so it is a word wherever it stands apart. -/
theorem Leads.solid {cs rest : List Char} (h : (Lexeme.word cs).Leads rest) : Solid cs := by
  cases h with
  | @word c cs _ hblank hopener hrest =>
      refine ⟨List.cons_ne_nil c cs, hblank, fun heq => ?_, fun heq => ?_⟩
      · obtain ⟨rfl, rfl⟩ := List.cons.inj heq
        exact hopener ⟨.inl rfl, hrest⟩
      · obtain ⟨rfl, rfl⟩ := List.cons.inj heq
        exact hopener ⟨.inr rfl, hrest⟩

end Lexeme

open Lexeme (Solid)

/-- A literal has no blank in it and opens no comment. -/
theorem Numeral.Literal.solid {text : List Char} {v : Int} (h : Literal text v) : Solid text := by
  obtain ⟨s, cs, rfl, hne, hcs⟩ := h.plain
  have hchars : ∀ c ∈ s.chars ++ cs, Text.isBlank c = false ∧ c ≠ '\\' ∧ c ≠ '(' := by
    intro c hc
    rcases List.mem_append.1 hc with hc | hc
    · cases s <;> simp [Sign.chars] at hc <;> subst hc <;> decide
    · obtain ⟨-, hblank, hspecial⟩ := hcs c hc
      simp only [List.mem_cons, not_or] at hspecial
      exact ⟨hblank, hspecial.2.2.2.1, hspecial.2.2.2.2.1⟩
  refine ⟨by simp [hne], fun c hc => (hchars c hc).1, fun heq => ?_, fun heq => ?_⟩
  · exact (hchars '\\' (heq ▸ List.mem_singleton_self _)).2.1 rfl
  · exact (hchars '(' (heq ▸ List.mem_singleton_self _)).2.2 rfl

/-- All words of a decomposition are solid. -/
theorem Decomposes.solid {cs word : List Char} {ls : List Lexeme} (h : Decomposes cs ls) :
    .word word ∈ ls → Solid word := by
  induction h with
  | nil => exact fun hword => absurd hword List.not_mem_nil
  | cons hl _ ih =>
      intro hword
      rcases List.mem_cons.1 hword with rfl | hword
      · exact hl.solid
      · exact ih hword

/-! ### Tokens as they are read -/

namespace Token

/-- The token is what its text is read as. -/
def Lexed (t : Token) : Prop := Solid t.text.toList ∧ ofWord t.text.toList = t

theorem lexed_ofWord {cs : List Char} (h : Solid cs) : (ofWord cs).Lexed := by
  have htext : (ofWord cs).text.toList = cs := by simp
  exact ⟨htext.symm ▸ h, by rw [htext]⟩

/-- The tokens of a source text can be written down again. -/
theorem lexed_of_mem_tokenize {source : String} {t : Token} (h : t ∈ tokenize source) :
    t.Lexed := by
  obtain ⟨l, hl, ht⟩ := List.mem_filterMap.1 h
  cases l with
  | word cs =>
      obtain rfl := Option.some.inj ht
      exact lexed_ofWord ((decomposes_iff.2 rfl).solid hl)
  | _ => cases ht

theorem lexed_int {n : Int} (h : n.natAbs < Numeral.tooLarge) :
    (Token.int n (Numeral.decimal n)).Lexed := by
  have hliteral := Numeral.literal_decimal h
  refine ⟨hliteral.solid, ?_⟩
  rw [text_int, ofWord, Numeral.literal?_of_literal hliteral, String.ofList_toList]

end Token

/-- The text of a token, in front of a blank or of nothing, is read as this token. -/
theorem Token.Lexed.scan_append {t : Token} (ht : t.Lexed) {rest : List Char}
    (hrest : Lexeme.Pauses rest) :
    (scan (t.text.toList ++ rest)).filterMap Lexeme.token? =
      t :: (scan rest).filterMap Lexeme.token? := by
  have hscan := decomposes_iff.1 (.cons (ht.1.leads hrest) (decomposes_iff.2 rfl))
  rw [Lexeme.chars] at hscan
  simp [← hscan, Lexeme.token?, ht.2]

theorem scan_space (rest : List Char) : scan (' ' :: rest) = .blank ' ' :: scan rest :=
  (decomposes_iff.1 (.cons (.blank Text.isBlank_space) (decomposes_iff.2 rfl))).symm

/-- The texts of tokens, with a blank between any two of them, are read as these tokens; what
follows a blank after them is read by itself. -/
theorem scan_intercalate_append {ts : List Token} (h : ∀ t ∈ ts, t.Lexed) {rest : List Char}
    (hrest : Lexeme.Pauses rest) :
    (scan ((String.intercalate " " (ts.map Token.text)).toList ++ rest)).filterMap Lexeme.token? =
      ts ++ (scan rest).filterMap Lexeme.token? := by
  induction ts with
  | nil => simp
  | cons t ts ih =>
      have ht := h t List.mem_cons_self
      have ih := ih fun u hu => h u (List.mem_cons_of_mem t hu)
      cases ts with
      | nil => simpa using ht.scan_append hrest
      | cons u ts =>
          have hpauses : ∀ cs, Lexeme.Pauses (' ' :: cs) := by
            simp [Lexeme.Pauses, Text.isBlank_space]
          rw [List.map_cons, List.map_cons, String.intercalate_cons_cons, ← List.map_cons]
          rw [String.toList_append, String.toList_append, List.append_assoc, List.append_assoc]
          show (scan (t.text.toList ++ ' ' :: _)).filterMap Lexeme.token? = _
          rw [ht.scan_append (hpauses _), scan_space]
          exact congrArg (t :: ·) ih

theorem tokenize_intercalate {ts : List Token} (h : ∀ t ∈ ts, t.Lexed) :
    tokenize (String.intercalate " " (ts.map Token.text)) = ts := by
  simpa [tokenize] using scan_intercalate_append h Lexeme.pauses_nil

end ThreadedForth
