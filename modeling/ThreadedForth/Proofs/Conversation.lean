import Mathlib
import ThreadedForth.Proofs.Evaluation
import ThreadedForth.Proofs.Soundness
/-!
# ThreadedForth.Proofs.Conversation

How a conversation goes on, and the one way in which it breaks off.

The lines that are heard are those before the first goodbye (`Repl.heard`). Each is interpreted on
the machine that the one before it led to (`Repl.reply`): a line that fails with a problem is
reported, and forgotten. So a conversation is a fold over the lines that are heard, with a prompt
before each of them and one more.

That breaks off at the first line on which a number has too many digits to be written, because such
a fault is no problem of the program and is not handled. In a session driven by source under a limit
that is a number no other fault is left, so there is nothing else that ends a conversation early
(`Session.conversation_of_lines`).
-/

namespace ThreadedForth

namespace Repl

variable {limit : Limit} {line : String} {lines : List String} {m m' : Machine}

/-- Does the line end the loop? -/
def isFarewell (line : String) : Bool := String.ofList (Text.trim line.toList) = farewell

/-- The lines that are interpreted: those before the first goodbye. -/
def heard (lines : List String) : List String := lines.takeWhile fun line => !isFarewell line

/-- The machine a line leads to. -/
def reply (limit : Limit) (m : Machine) (line : String) : Machine := (turn limit line m).machine

/-- None of the lines, each after those before it, comes upon a number with too many digits to be
written. -/
def Writable (limit : Limit) (m : Machine) (lines : List String) : Prop :=
  ∀ before line rest, lines = before ++ line :: rest →
    ((before.foldl (reply limit) m).execute limit false line).fault? ≠ some .digitLimit

theorem writable_nil (limit : Limit) (m : Machine) : Writable limit m [] := by
  intro before line rest h
  simp at h

/-- The first line can be written, and so can the others after it. -/
theorem writable_cons :
    Writable limit m (line :: lines) ↔
      (m.execute limit false line).fault? ≠ some .digitLimit ∧
        Writable limit (reply limit m line) lines := by
  constructor
  · intro h
    refine ⟨h [] line lines rfl, ?_⟩
    intro before next rest hlines
    exact h (line :: before) next rest (by rw [hlines, List.cons_append])
  · rintro ⟨hline, h⟩ before next rest hlines
    cases before with
    | nil =>
        obtain ⟨rfl, -⟩ := List.cons.inj hlines
        exact hline
    | cons first before =>
        obtain ⟨rfl, rfl⟩ := List.cons.inj hlines
        exact h before next rest rfl

/-! ### Turns -/

/-- A goodbye ends the loop and changes nothing. -/
theorem turn_of_isFarewell (h : isFarewell line = true) : turn limit line m = .bye m := by
  rw [turn, if_pos (by simpa [isFarewell] using h)]

/-- A line that fails with a problem is reported and forgotten. -/
theorem turn_of_problem {p : Problem} {trace : List String} (hline : isFarewell line = false)
    (h : m.execute limit false line = .fail (.problem p trace) m') :
    turn limit line m = .next (m'.write ("\nError: " ++ p.message ++ "\n")).abort := by
  rw [turn, if_neg (by simpa [isFarewell] using hline), h]

/-- A number that is too long to be written is no problem of the program, and ends the loop. -/
theorem turn_of_digitLimit (hline : isFarewell line = false)
    (h : m.execute limit false line = .fail .digitLimit m') :
    turn limit line m = .crash .digitLimit m' := by
  rw [turn, if_neg (by simpa [isFarewell] using hline), h]

/-- After a line that succeeded the loop goes on. -/
theorem turn_of_ok (hline : isFarewell line = false) (h : m.execute limit false line = .ok () m') :
    turn limit line m = .next (reply limit m line) := by
  rw [reply, turn, if_neg (by simpa [isFarewell] using hline), h]
  cases hmode : m'.state.mode with
  | interpret => simp only [hmode, Turn.machine]
  | compile => simp only [hmode, Turn.machine]

end Repl

/-! ### What is left after a line was given up -/

theorem State.out_abandon (s : State) : s.abandon.out = s.out := by
  unfold abandon
  split <;> rfl

namespace Machine

/-- After a failure the stack is empty. -/
theorem stack_abort (m : Machine) : m.abort.state.stack = [] :=
  (m.state.withStack []).stack_abandon

theorem mode_abort (m : Machine) : m.abort.state.mode = .interpret := rfl

/-- After a failure no word is open. -/
theorem active_abort (m : Machine) : m.abort.state.dict.active = none := by
  have hdict : m.abort.state.dict = m.state.dict.abandon := (m.state.withStack []).dict_abandon
  rw [hdict, Dictionary.active_abandon]

/-- A failure does not take back what was written. -/
theorem out_abort (m : Machine) : m.abort.state.out = m.state.out :=
  (m.state.withStack []).out_abandon

end Machine

/-! ### Conversations -/

namespace Repl

variable {n : Int} {line : String} {lines : List String} {m m' : Machine} {f : Fault}

/-- A sound machine is still sound after a line. -/
theorem sound_reply (hm : m.Sound .initial) (line : String) :
    (reply (.atMost n) m line).Sound .initial :=
  ((Machine.sound_invariant (.atMost n) .initial).turn line hm).machine

/-- A sound machine is still sound after any number of lines. -/
theorem sound_foldl_reply (lines : List String) : ∀ {m : Machine}, m.Sound .initial →
    (lines.foldl (reply (.atMost n)) m).Sound .initial := by
  induction lines with
  | nil => exact fun hm => hm
  | cons line lines ih => exact fun hm => ih (sound_reply hm line)

/-- A line fails with a problem of the program, or with a number that is too long. -/
theorem problem_or_digitLimit (hm : m.Sound .initial)
    (h : m.execute (.atMost n) false line = .fail f m') :
    f = .digitLimit ∨ ∃ p trace, f = .problem p trace := by
  have hforeseen := ((Machine.sound_invariant (.atMost n) .initial).execute false line hm).2 f
    (by rw [h]; rfl)
  cases f with
  | problem p trace => exact .inr ⟨p, trace, rfl⟩
  | digitLimit => exact .inl rfl
  | badIndex why => exact absurd hforeseen id
  | blankLimit => exact absurd hforeseen (by simp [Fault.Foreseen])

/-- After a line that is heard the loop goes on, unless a number was too long. -/
theorem turn_of_writable (hm : m.Sound .initial) (hline : isFarewell line = false)
    (h : (m.execute (.atMost n) false line).fault? ≠ some .digitLimit) :
    turn (.atMost n) line m = .next (reply (.atMost n) m line) := by
  cases hexecute : m.execute (.atMost n) false line with
  | ok a m' => exact turn_of_ok hline hexecute
  | fail f m' =>
      rcases problem_or_digitLimit hm hexecute with rfl | ⟨p, trace, rfl⟩
      · exact absurd (by rw [hexecute]; rfl) h
      · rw [reply, turn_of_problem hline hexecute]
        rfl

/-- Nothing is heard from a goodbye on. -/
theorem heard_cons_of_isFarewell (h : isFarewell line = true) : heard (line :: lines) = [] := by
  simp [heard, h]

theorem heard_cons (h : isFarewell line = false) :
    heard (line :: lines) = line :: heard lines := by
  simp [heard, h]

/-- As long as no number is too long, a conversation is a fold over the lines that are heard. -/
theorem converse_of_writable (lines : List String) : ∀ {m : Machine}, m.Sound .initial →
    Writable (.atMost n) m (heard lines) →
      converse (.atMost n) false (lines.map .line) m =
        (((heard lines).scanl (reply (.atMost n)) m).map prompt,
          .ok () ((heard lines).foldl (reply (.atMost n)) m)) := by
  induction lines with
  | nil =>
      intro m _ _
      rfl
  | cons line lines ih =>
      intro m hm h
      rw [List.map_cons, converse]
      by_cases hline : isFarewell line = true
      · rw [heard_cons_of_isFarewell hline]
        simp only [Answer.react, Bool.false_eq_true, if_false, turn_of_isFarewell hline]
        rfl
      · rw [Bool.not_eq_true] at hline
        rw [heard_cons hline] at h ⊢
        obtain ⟨hfirst, hrest⟩ := writable_cons.1 h
        simp only [Answer.react, Bool.false_eq_true, if_false, turn_of_writable hm hline hfirst,
          ih (sound_reply hm line) hrest, List.scanl_cons, List.map_cons, List.foldl_cons]

/-- Otherwise it breaks off at the first line on which a number is too long. -/
theorem converse_of_not_writable (lines : List String) : ∀ {m : Machine}, m.Sound .initial →
    ¬ Writable (.atMost n) m (heard lines) →
      ∃ before line rest m', heard lines = before ++ line :: rest ∧
        Writable (.atMost n) m before ∧
        (before.foldl (reply (.atMost n)) m).execute (.atMost n) false line =
          .fail .digitLimit m' ∧
        converse (.atMost n) false (lines.map .line) m =
          ((before.scanl (reply (.atMost n)) m).map prompt, .fail .digitLimit m') := by
  induction lines with
  | nil =>
      intro m _ h
      exact absurd (writable_nil _ m) h
  | cons line lines ih =>
      intro m hm h
      rw [List.map_cons, converse]
      by_cases hline : isFarewell line = true
      · rw [heard_cons_of_isFarewell hline] at h
        exact absurd (writable_nil _ m) h
      · rw [Bool.not_eq_true] at hline
        rw [heard_cons hline] at h ⊢
        by_cases hfirst : (m.execute (.atMost n) false line).fault? = some .digitLimit
        · cases hexecute : m.execute (.atMost n) false line with
          | ok a m' => simp [hexecute] at hfirst
          | fail f m' =>
              obtain rfl : f = .digitLimit := by simpa [hexecute] using hfirst
              refine ⟨[], line, heard lines, m', rfl, writable_nil _ m, hexecute, ?_⟩
              simp only [Answer.react, Bool.false_eq_true, if_false,
                turn_of_digitLimit hline hexecute]
              rfl
        · have hrest : ¬ Writable (.atMost n) (reply (.atMost n) m line) (heard lines) := by
            intro hrest
            exact h (writable_cons.2 ⟨hfirst, hrest⟩)
          obtain ⟨before, next, rest, m', hlines, hbefore, hexecute, hconverse⟩ :=
            ih (sound_reply hm line) hrest
          refine ⟨line :: before, next, rest, m', by rw [hlines, List.cons_append],
            writable_cons.2 ⟨hfirst, hbefore⟩, hexecute, ?_⟩
          simp only [Answer.react, Bool.false_eq_true, if_false, turn_of_writable hm hline hfirst,
            hconverse, List.scanl_cons, List.map_cons]

end Repl

/-! ### Numbers that are too long -/

theorem Outcome.fault?_bind {σ α β : Type} {x : Outcome σ α} {next : α → σ → Outcome σ β}
    {f : Fault} (h : x.fault? = some f) : (x.bind next).fault? = some f := by
  cases x with
  | ok a s => simp at h
  | fail g s => exact h

/-- A source fails as its tokens do. -/
theorem Machine.fault?_interpret {limit : Limit} {final : Bool} {tokens : List Token} {m : Machine}
    {f : Fault}
    (h : ((m.withState (m.state.withInput (some tokens))).consume limit).fault? = some f) :
    (m.interpret limit final tokens).fault? = some f := by
  rw [interpret]
  cases hconsume : (m.withState (m.state.withInput (some tokens))).consume limit with
  | ok a m' => simp [hconsume] at h
  | fail g m' =>
      rw [hconsume] at h
      exact h

/-- A number that is too long to be written breaks off a line that prints it. -/
theorem Machine.execute_dot {limit : Limit} {free : Nat} {m : Machine} {k : Int} {rest : Stack}
    {h : Nat} {w : Word} (hm : m.calls = .empty) (hmode : m.state.mode = .interpret)
    (hactive : m.state.dict.active = none) (hlookup : m.state.dict.lookup "." = some h)
    (hw : m.state.dict.word? h = some w) (hcode : w.code = [.primitive (.data .dot)])
    (hstack : m.state.stack = .int k :: rest) (hk : Numeral.tooLarge ≤ k.natAbs)
    (hroom : limit.room = free + 1) :
    (m.execute limit false ".").fault? = some .digitLimit := by
  have hwritten : Numeral.written? k = none := Numeral.written?_eq_none_iff.2 hk
  have hrun : Primitive.run (.data .dot) (m.state.withInput (some [])) =
      .fail .digitLimit ((m.state.withInput (some [])).withStack rest) := by
    have hs : (m.state.withInput (some [])).stack = .int k :: rest := hstack
    simp [Primitive.run, DataWord.runOn, DataWord.run, Stack.printTop, hs, Value.describe?,
      hwritten]
  have hword : ((m.withState (m.state.withInput (some []))).executeWord limit h).fault? =
      some .digitLimit := by
    rw [executeWord_of_room hm (s := m.state.withInput (some [])) hw hroom, hcode]
    simp only [evalCode, evalCell, hrun]
    rfl
  have hdispatch : (m.withState (m.state.withInput (some []))).dispatch limit (.name ".") =
      (m.withState (m.state.withInput (some []))).executeWord limit h := by
    simp [dispatch, interpretToken, runName, State.withInput, hmode, hactive, hlookup]
  have htoken : tokenize "." = [.name "."] := by decide +kernel
  have hinput : (m.withState (m.state.withInput (some [.name "."]))).state.input =
      some [.name "."] := rfl
  rw [execute, htoken]
  refine fault?_interpret ?_
  rw [consume_cons hinput]
  refine Outcome.fault?_bind ?_
  show ((m.withState (m.state.withInput (some []))).dispatch limit (.name ".")).fault? = _
  rw [hdispatch, hword]

namespace Session

open Repl (heard reply Writable)

/-- A conversation goes on as long as no number is too long to be written, and only so long. In a
session driven by source, let a user say some lines. If none of those that are heard comes upon such
a number, the conversation ends normally: there was a prompt for each of them, and one more for the
goodbye or the end of the lines. Otherwise it breaks off at the first line that does. Whatever else
a line fails with is reported, and it leaves an empty stack, the interpreting mode and no open word
for the next line. -/
theorem conversation_of_lines {n : Int} {m start : Machine} (hm : Reaches (.atMost n) m)
    (hstart : start = m.write Repl.banner) (lines : List String) :
    (Writable (.atMost n) start (heard lines) →
      perform (.atMost n) m (.repl (lines.map .line)) =
        (((heard lines).scanl (reply (.atMost n)) start).map Repl.prompt,
          .ok .nothing ((heard lines).foldl (reply (.atMost n)) start))) ∧
    (¬ Writable (.atMost n) start (heard lines) →
      ∃ before line rest m', heard lines = before ++ line :: rest ∧
        Writable (.atMost n) start before ∧
        (before.foldl (reply (.atMost n)) start).execute (.atMost n) false line =
          .fail .digitLimit m' ∧
        perform (.atMost n) m (.repl (lines.map .line)) =
          ((before.scanl (reply (.atMost n)) start).map Repl.prompt, .fail .digitLimit m')) ∧
    ∀ before line rest f m' next, heard lines = before ++ line :: rest →
      (before.foldl (reply (.atMost n)) start).execute (.atMost n) false line = .fail f m' →
      f ≠ .digitLimit → next = reply (.atMost n) (before.foldl (reply (.atMost n)) start) line →
      ∃ p trace, f = .problem p trace ∧
        next.state.out = m'.state.out ++ ("\nError: " ++ p.message ++ "\n") ∧
        next.state.stack = [] ∧ next.state.mode = .interpret ∧ next.state.dict.active = none := by
  subst hstart
  have hsound : (m.write Repl.banner).Sound .initial :=
    (Machine.sound_invariant (.atMost n) .initial).write (.of_reaches hm) Repl.banner
  refine ⟨?_, ?_, ?_⟩
  · intro h
    simp only [perform, Repl.run, Repl.converse_of_writable lines hsound h, Outcome.map_ok]
  · intro h
    obtain ⟨before, line, rest, m', hlines, hbefore, hexecute, hconverse⟩ :=
      Repl.converse_of_not_writable lines hsound h
    refine ⟨before, line, rest, m', hlines, hbefore, hexecute, ?_⟩
    simp only [perform, Repl.run, hconverse, Outcome.map_fail]
  · intro before line rest f m' next hlines hexecute hf hnext
    rcases Repl.problem_or_digitLimit (Repl.sound_foldl_reply before hsound) hexecute with
      rfl | ⟨p, trace, rfl⟩
    · exact absurd rfl hf
    · have hline : Repl.isFarewell line = false := by
        have hmem : line ∈ heard lines := by
          rw [hlines]
          simp
        simpa using List.mem_takeWhile_imp hmem
      rw [reply, Repl.turn_of_problem hline hexecute, Repl.Turn.machine] at hnext
      rw [hnext]
      exact ⟨p, trace, rfl, Machine.out_abort _, Machine.stack_abort _, Machine.mode_abort _,
        Machine.active_abort _⟩

/-- A user who makes two mistakes, the second of them on the line that ends a definition, goes on
until the goodbye, and has the definition. -/
theorem conversation_of_lines_recovers :
    ∃ final : Machine, final.state.stack = [.int 2, .int 2] ∧
      perform (.atMost 9) .initial
          (.repl (["drop", ": two", "2 ; nonsense", "two two", " bye ", "two"].map .line)) =
        (["OK> ", "OK> ", "...> ", "OK> ", "OK> "], .ok .nothing final) := by
  obtain ⟨start, hstart⟩ : ∃ start, start = Machine.initial.write Repl.banner := ⟨_, rfl⟩
  have hheard : Repl.heard ["drop", ": two", "2 ; nonsense", "two two", " bye ", "two"] =
      ["drop", ": two", "2 ; nonsense", "two two"] := by decide +kernel
  have hwritable : Repl.Writable (.atMost 9) start
      (Repl.heard ["drop", ": two", "2 ; nonsense", "two two", " bye ", "two"]) := by
    rw [hheard]
    refine Repl.writable_cons.2 ⟨?_, Repl.writable_cons.2 ⟨?_, Repl.writable_cons.2 ⟨?_,
      Repl.writable_cons.2 ⟨?_, Repl.writable_nil _ _⟩⟩⟩⟩
    all_goals
      rw [hstart]
      cbv
      simp
  have hgoes := (conversation_of_lines .fresh hstart _).1 hwritable
  rw [hheard] at hgoes
  obtain ⟨final, hfinal⟩ : ∃ final, final = ["drop", ": two", "2 ; nonsense", "two two"].foldl
      (Repl.reply (.atMost 9)) start := ⟨_, rfl⟩
  rw [← hfinal] at hgoes
  refine ⟨final, ?_, ?_⟩
  · rw [hfinal, hstart]
    cbv
  · rw [hgoes, hstart]
    cbv

/-- A number that is too long breaks a conversation off before the line after it and the goodbye. -/
theorem conversation_breaks_off :
    ∃ m m' : Machine, Reaches (.atMost 1000) m ∧
      perform (.atMost 1000) m (.repl ([".", "1 .", "bye"].map .line)) =
        (["OK> "], .fail .digitLimit m') := by
  obtain ⟨k, hk⟩ : ∃ k : Int, Numeral.tooLarge ≤ k.natAbs :=
    ⟨Numeral.tooLarge, (Int.natAbs_natCast Numeral.tooLarge).ge⟩
  have hreaches : Reaches (.atMost 1000) ⟨State.initial.withStack [.int k], .empty⟩ :=
    .perform (.push [.int k]) (by simp [Command.SourceDriven]) .fresh
  obtain ⟨start, hstart⟩ : ∃ start : Machine,
      start = Machine.write ⟨State.initial.withStack [.int k], .empty⟩ Repl.banner := ⟨_, rfl⟩
  have hlookup : Dictionary.initial.lookup "." = some 12 := by decide +kernel
  obtain ⟨w, hw, hcode⟩ : ∃ w : Word, Dictionary.initial.word? (12 : Nat) = some w ∧
      w.code = [.primitive (.data .dot)] := ⟨_, rfl, by decide +kernel⟩
  have hdot : (start.execute (.atMost 1000) false ".").fault? = some .digitLimit := by
    rw [hstart]
    exact Machine.execute_dot rfl rfl rfl hlookup hw hcode rfl hk rfl
  have hheard : Repl.heard [".", "1 .", "bye"] = [".", "1 ."] := by decide +kernel
  have hnot : ¬ Repl.Writable (.atMost 1000) start (Repl.heard [".", "1 .", "bye"]) := by
    intro h
    exact h [] "." ["1 ."] hheard hdot
  have hsound : start.Sound .initial := by
    rw [hstart]
    exact (Machine.sound_invariant (.atMost 1000) .initial).write (.of_reaches hreaches) Repl.banner
  obtain ⟨before, line, rest, m', hlines, hbefore, hexecute, hconverse⟩ :=
    Repl.converse_of_not_writable [".", "1 .", "bye"] hsound hnot
  -- It is the first line that breaks the conversation off.
  obtain rfl : before = [] := by
    cases before with
    | nil => rfl
    | cons first before =>
        rw [hheard] at hlines
        obtain ⟨rfl, -⟩ := List.cons.inj hlines
        exact absurd hdot (Repl.writable_cons.1 hbefore).1
  refine ⟨_, m', hreaches, ?_⟩
  rw [perform, Repl.run, ← hstart, hconverse, hstart]
  rfl

end Session

end ThreadedForth
