import Mathlib
import ThreadedForth.Proofs.Spelling
import ThreadedForth.Session
/-!
# ThreadedForth.Proofs.Rereading

Text that is written in order to be read again.

Source text has a normal form: its words with a blank between any two of them (`normalForm`).
Comments, line ends and the kinds of blanks are gone, and the tokens are the same; so it is the same
program wherever the text is one (`Session.execute_normalForm`).

The numbers that are printed are in normal form. They are read back as these numbers, by the lexer
and by an interpreter that executes them, whatever words it has, because a number is not looked up
(`Session.printed_integers_read_back`).
-/

namespace ThreadedForth

/-! ### Normal forms of source text -/

/-- The words of a source text, with a blank between any two of them. -/
def normalForm (source : String) : String :=
  String.intercalate " " ((tokenize source).map Token.text)

/-- A source text and its normal form have the same tokens, and do the same in every interpreter. -/
theorem Session.execute_normalForm (source : String) :
    tokenize (normalForm source) = tokenize source ∧
      ∀ (limit : Limit) (m : Machine) (final : Bool),
        m.execute limit final (normalForm source) = m.execute limit final source := by
  have htokens : tokenize (normalForm source) = tokenize source :=
    tokenize_intercalate fun t ht => Token.lexed_of_mem_tokenize ht
  refine ⟨htokens, fun limit m final => ?_⟩
  rw [Machine.execute, htokens, Machine.execute]

/-! ### Printed numbers -/

/-- The token of an integer in decimal form. -/
def Token.ofInt (n : Int) : Token := .int n (Numeral.decimal n)

/-- Numbers are pushed one after another: a number is not looked up. -/
theorem Machine.consume_ints {limit : Limit} (m : Machine) {s : State} (hmode : s.mode = .interpret)
    (hactive : s.dict.active = none) (ns : List Int) :
    (m.withState (s.withInput (some (ns.map Token.ofInt)))).consume limit = .ok () (m.withState
      ((s.withStack ((ns.map Value.int).reverse ++ s.stack)).withInput (some []))) := by
  induction ns generalizing s with
  | nil => exact consume_of_pending_eq_zero rfl
  | cons n ns ih =>
      have hdispatch : (m.withState (s.withInput (some (ns.map Token.ofInt)))).dispatch limit
          (.ofInt n) = .ok () (m.withState ((s.push (.int n)).withInput
            (some (ns.map Token.ofInt)))) := by
        simp [dispatch, interpretToken, Token.ofInt, State.withInput, State.push, hmode, hactive]
        rfl
      rw [consume_cons rfl]
      show ((m.withState (s.withInput (some (ns.map Token.ofInt)))).dispatch limit
        (.ofInt n)).bind _ = _
      rw [hdispatch, Outcome.bind_ok, ih (s := s.push (.int n)) hmode hactive]
      simp only [List.map_cons, List.reverse_cons, List.append_assoc]
      rfl

theorem Machine.interpret_ints {limit : Limit} (m : Machine) (hmode : m.state.mode = .interpret)
    (hactive : m.state.dict.active = none) (final : Bool) (ns : List Int) :
    m.interpret limit final (ns.map Token.ofInt) =
      .ok () (m.withState (m.state.withStack ((ns.map Value.int).reverse ++ m.state.stack))) := by
  simp only [interpret, consume_ints m hmode hactive]
  rw [if_neg (by simp [State.withInput, State.withStack, hmode])]
  rfl

theorem Value.describe?_int {n : Int} (h : n.natAbs < Numeral.tooLarge) :
    (Value.int n).describe? = some (Numeral.decimal n) :=
  Numeral.written?_eq_some_iff.2 ⟨h, rfl⟩

theorem Stack.describe?_ints {ns : List Int} (h : ∀ n ∈ ns, n.natAbs < Numeral.tooLarge) :
    describe? (ns.map Value.int).reverse = some (ns.map Numeral.decimal) := by
  rw [describe?, List.reverse_reverse]
  induction ns with
  | nil => rfl
  | cons n ns ih =>
      have ih := ih fun k hk => h k (List.mem_cons_of_mem n hk)
      simp [List.mapM_cons, Value.describe?_int (h n List.mem_cons_self), ih]

/-- Texts without blanks, joined by blanks, do not end with one. -/
theorem exists_last_of_solid {texts : List String} (hne : texts ≠ [])
    (h : ∀ s ∈ texts, Lexeme.Solid s.toList) : ∃ cs c,
      (String.intercalate " " texts).toList = cs ++ [c] ∧ Text.isBlank c = false := by
  induction texts with
  | nil => exact absurd rfl hne
  | cons s texts ih =>
      by_cases htexts : texts = []
      · obtain ⟨hs, hblank, -⟩ := h s List.mem_cons_self
        obtain ⟨cs, c, hcs⟩ := (List.eq_nil_or_concat s.toList).resolve_left hs
        rw [List.concat_eq_append] at hcs
        exact ⟨cs, c, by simpa [htexts] using hcs, hblank c (by simp [hcs])⟩
      · obtain ⟨cs, c, hcs, hc⟩ := ih htexts fun t ht => h t (List.mem_cons_of_mem s ht)
        refine ⟨s.toList ++ ' ' :: cs, c, ?_, hc⟩
        rw [String.intercalate_cons_of_ne_nil htexts]
        simp [hcs]

/-- A stack of integers is shown as its depth in angle brackets and the integers, bottom first, with
a blank between any two of them. -/
theorem Stack.summary?_ints {ns : List Int} (h : ∀ n ∈ ns, n.natAbs < Numeral.tooLarge) :
    summary? (ns.map Value.int).reverse = some (String.intercalate " "
      (("<" ++ ns.length.repr ++ ">") :: ns.map Numeral.decimal)) := by
  simp only [summary?, describe?_ints h, Option.map_some, List.length_reverse, List.length_map]
  refine congrArg some ?_
  rw [← String.toList_inj, String.toList_ofList]
  -- An empty stack leaves the blank after its depth to be trimmed; otherwise a digit is last.
  cases hns : ns with
  | nil => rfl
  | cons k ks =>
      have hne : (k :: ks).map Numeral.decimal ≠ [] := by simp
      obtain ⟨cs, c, hcs, hc⟩ := exists_last_of_solid hne fun t ht => by
        obtain ⟨n, hn, rfl⟩ := List.mem_map.1 ht
        exact (Numeral.literal_decimal (h n (hns ▸ hn))).solid
      rw [String.intercalate_cons_of_ne_nil hne]
      simp only [String.toList_append, hcs]
      rw [← List.append_assoc, Text.trimEnd_concat hc]
      simp

/-- The text of printed integers, perhaps with a blank at the end, is read as these integers. -/
theorem tokenize_ints {ns : List Int} (h : ∀ n ∈ ns, n.natAbs < Numeral.tooLarge) {tail : String}
    (htail : tail ∈ ["", " "]) :
    tokenize (String.intercalate " " (ns.map Numeral.decimal) ++ tail) = ns.map Token.ofInt := by
  have hlexed : ∀ t ∈ ns.map Token.ofInt, t.Lexed := by
    intro t ht
    obtain ⟨n, hn, rfl⟩ := List.mem_map.1 ht
    exact Token.lexed_int (h n hn)
  have htexts : (ns.map Token.ofInt).map Token.text = ns.map Numeral.decimal := by
    simp [Token.ofInt, Function.comp_def]
  obtain ⟨hpauses, hscan⟩ : Lexeme.Pauses tail.toList ∧
      (scan tail.toList).filterMap Lexeme.token? = [] := by
    obtain rfl | rfl : tail = "" ∨ tail = " " := by simpa using htail
    · exact ⟨Lexeme.pauses_nil, by simp⟩
    · simp [Lexeme.Pauses, Text.isBlank_space, scan_space, Lexeme.token?]
  rw [tokenize, String.toList_append, ← htexts, scan_intercalate_append hlexed hpauses, hscan,
    List.append_nil]

/-- Printed integers read back. Take integers of which each has as few digits as may be written, and
the text that shows them with a blank between any two of them, as the words that print a value and
the whole stack do, perhaps with a blank at the end. It is read as these integers. To execute it
while no definition is open pushes them in their order, whatever words there are, and does nothing
else. -/
theorem Session.printed_integers_read_back {ns : List Int}
    (hdigits : ∀ n ∈ ns, (Nat.toDigits 10 n.natAbs).length ≤ Numeral.digitLimit) :
    Stack.printAll (ns.map Value.int).reverse =
        .ok
          (String.intercalate " " (("<" ++ ns.length.repr ++ ">") :: ns.map Numeral.decimal) ++ "\n")
          (ns.map Value.int).reverse ∧
      (∀ n ∈ ns, ∀ s, Stack.printTop (.int n :: s) = .ok (Numeral.decimal n ++ " ") s) ∧
      ∀ tail ∈ ["", " "],
        tokenize (String.intercalate " " (ns.map Numeral.decimal) ++ tail) =
          ns.map Token.ofInt ∧
        ∀ (limit : Limit) (m : Machine) (final : Bool), m.state.mode = .interpret →
          m.state.dict.active = none →
          m.execute limit final (String.intercalate " " (ns.map Numeral.decimal) ++ tail) =
            .ok () (m.withState
              (m.state.withStack ((ns.map Value.int).reverse ++ m.state.stack))) := by
  have hsmall : ∀ n ∈ ns, n.natAbs < Numeral.tooLarge := fun n hn =>
    (Numeral.lt_tooLarge_iff _).2 (hdigits n hn)
  refine ⟨?_, fun n hn s => ?_, fun tail htail => ?_⟩
  · simp [Stack.printAll, Stack.summary?_ints hsmall]
  · simp [Stack.printTop, Value.describe?_int (hsmall n hn)]
  have htokens := tokenize_ints hsmall htail
  refine ⟨htokens, fun limit m final hmode hactive => ?_⟩
  rw [Machine.execute, htokens]
  exact m.interpret_ints hmode hactive final ns

/-- A number of as many digits as there may be, zero, and a negative number, in a dictionary that has
words with the names of the last two. -/
theorem Session.printed_integers_read_back_named :
    ∃ m : Machine, m.state.mode = .interpret ∧ m.state.dict.active = none ∧
      m.state.dict.lookup "0" = some 23 ∧ m.state.dict.lookup "-12" = some 24 ∧
      m.execute (.atMost 9) true (String.intercalate " "
        ([(Numeral.tooLarge : Int) - 1, 0, -12].map Numeral.decimal) ++ " ") =
          .ok () (m.withState (m.state.withStack
            ([.int (-12), .int 0, .int (Numeral.tooLarge - 1)] ++ m.state.stack))) := by
  obtain ⟨m, hmode, hactive, hzero, hminus⟩ : ∃ m : Machine, m.state.mode = .interpret ∧
      m.state.dict.active = none ∧ m.state.dict.lookup "0" = some 23 ∧
      m.state.dict.lookup "-12" = some 24 :=
    ⟨(Machine.initial.execute (.atMost 9) true ": 0 7 ; : -12 8 ; 5").state, by cbv, by cbv, by cbv,
      by cbv⟩
  have hdigits : ∀ n ∈ [(Numeral.tooLarge : Int) - 1, 0, -12],
      (Nat.toDigits 10 n.natAbs).length ≤ Numeral.digitLimit := by
    intro n hn
    rw [← Numeral.lt_tooLarge_iff]
    have hpos : 12 < Numeral.tooLarge := by
      rw [Numeral.lt_tooLarge_iff]
      decide
    simp only [List.mem_cons, List.not_mem_nil, or_false] at hn
    omega
  have hread := (Session.printed_integers_read_back hdigits).2.2 " " (by simp)
  exact ⟨m, hmode, hactive, hzero, hminus, hread.2 (.atMost 9) m true hmode hactive⟩

end ThreadedForth
