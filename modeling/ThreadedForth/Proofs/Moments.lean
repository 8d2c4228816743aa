import ThreadedForth.Proofs.Session
/-!
# ThreadedForth.Proofs.Moments

The machines an interpreter passes through *within* a command: before and after every token,
between any two cells of any word that runs, and wherever something fails.

`DuringWord` are the moments of one execution of a word; its loop is followed step by step
(`DuringRun`). `During` are the moments of everything larger, a token, the tokens of a source,
an answer of a conversation, a command. Each rule of it is one clause of a function of the
interpreter: it names the condition under which the clause is reached and the machine it starts
from.

`Invariant.during` carries an invariant of the acts to all these moments. What holds while a
word runs may be weaker than what holds between tokens, where no word is running, so it has a
property of its own there.
-/

namespace ThreadedForth

/-- The machine a turn of a conversation ends with. -/
def Repl.Turn.machine : Repl.Turn → Machine
  | next m => m
  | bye m => m
  | crash _ m => m

namespace Machine

/-- The machines the loop over cells passes through, from a machine on until only the outermost
`base` frames are left or a step fails. -/
inductive DuringRun (limit : Limit) (base : Nat) : Machine → Machine → Prop where
  /-- Where it starts. -/
  | here (m : Machine) : DuringRun limit base m m
  /-- After a step. -/
  | step {m m₁ m' : Machine} : base < m.calls.depth → m.step limit = .ok () m₁ →
      DuringRun limit base m₁ m' → DuringRun limit base m m'
  /-- Where a step failed. -/
  | failed {m m' : Machine} {f : Fault} : base < m.calls.depth → m.step limit = .fail f m' →
      DuringRun limit base m m'

/-- The machines the execution of a word passes through: the one before, those of its run, and
the one after. -/
inductive DuringWord (limit : Limit) (handle : Int) (m : Machine) : Machine → Prop where
  /-- Before it. -/
  | before : DuringWord limit handle m m
  /-- Between its cells. -/
  | within {m₁ m' : Machine} : m.call limit handle = .ok () m₁ →
      DuringRun limit m.calls.depth m₁ m' → DuringWord limit handle m m'
  /-- After it, also when it failed. -/
  | after : DuringWord limit handle m (m.executeWord limit handle).state

end Machine

namespace Session

/-- What an interpreter can be busy with. -/
inductive Activity where
  /-- A token that was just taken. -/
  | token (t : Token)
  /-- The unread tokens, one after another. -/
  | tokens
  /-- A piece of source. -/
  | source (final : Bool) (tokens : List Token)
  /-- An answer to a prompt. -/
  | answer (a : Repl.Answer)
  /-- The rest of a conversation. -/
  | answers (as : List Repl.Answer)
  /-- A command of the host. -/
  | command (c : Command)

/-- The machine an activity ends with, also when it fails. -/
def Activity.finish (limit : Limit) (m : Machine) : Activity → Machine
  | token t => (m.dispatch limit t).state
  | tokens => (m.consume limit).state
  | source final ts => (m.interpret limit final ts).state
  | answer a => (a.react limit m).machine
  | answers as => (Repl.converse limit false as m).2.state
  | command c => (perform limit m c).2.state

/-- The machines an activity passes through. -/
inductive During (limit : Limit) : Activity → Machine → Machine → Prop where
  /-- The machine it begins with. -/
  | start (a : Activity) (m : Machine) : During limit a m m
  /-- The machine it ends with. -/
  | finish (a : Activity) (m : Machine) : During limit a m (a.finish limit m)
  /-- While interpreting, a name runs the word found for it, after an open definition has been
  finished. -/
  | name {name : String} {h : Nat} {m m₀ m' : Machine} : m.state.mode = .interpret →
      m₀ = (if m.state.dict.active.isSome then m.withState m.state.finish else m) →
      m₀.state.dict.lookup name = some h → Machine.DuringWord limit h m₀ m' →
      During limit (.token (.name name)) m m'
  /-- While compiling, a name other than `;` runs the word found for it if that is immediate. -/
  | immediate {name compiling : String} {h k : Nat} {w : Word} {m m' : Machine} :
      m.state.mode = .compile → m.state.dict.active = some k → name ≠ SystemWord.semicolon.name →
      m.state.dict.lookupOutside name = some h → m.state.dict.entries[h]? = some w →
      w.immediate = true → compiling = (m.state.dict.entries[k]?.map Word.name).getD "" →
      Machine.DuringWord limit h (m.withState (m.state.record (.ranImmediate w.name compiling)))
        m' →
      During limit (.token (.name name)) m m'
  /-- The first unread token. -/
  | first {t : Token} {ts : List Token} {m m' : Machine} : m.state.input = some (t :: ts) →
      During limit (.token t) (m.withState (m.state.withInput (some ts))) m' →
      During limit .tokens m m'
  /-- The tokens after it. -/
  | later {t : Token} {ts : List Token} {m m₁ m' : Machine} : m.state.input = some (t :: ts) →
      (m.withState (m.state.withInput (some ts))).dispatch limit t = .ok () m₁ →
      During limit .tokens m₁ m' → During limit .tokens m m'
  /-- The tokens of a piece of source. -/
  | source {final : Bool} {ts : List Token} {m m' : Machine} :
      During limit .tokens (m.withState (m.state.withInput (some ts))) m' →
      During limit (.source final ts) m m'
  /-- A line is a piece of source. -/
  | line {text : String} {m m' : Machine} :
      During limit (.source false (tokenize text)) m m' →
      During limit (.answer (.line text)) m m'
  /-- The first answer of a conversation. -/
  | answer {a : Repl.Answer} {as : List Repl.Answer} {m m' : Machine} :
      During limit (.answer a) m m' → During limit (.answers (a :: as)) m m'
  /-- The answers after it. -/
  | answers {a : Repl.Answer} {as : List Repl.Answer} {m m₁ m' : Machine} :
      a.react limit m = .next m₁ → During limit (.answers as) m₁ m' →
      During limit (.answers (a :: as)) m m'
  /-- The host hands in a piece of source. -/
  | execute {text : String} {final : Bool} {m m' : Machine} :
      During limit (.source final (tokenize text)) m m' →
      During limit (.command (.execute text final)) m m'
  /-- The host holds a conversation. -/
  | repl {as : List Repl.Answer} {m m' : Machine} :
      During limit (.answers as) (m.write Repl.banner) m' → During limit (.command (.repl as)) m m'
  /-- The host runs the word of a name. -/
  | run {name : String} {h : Nat} {m m' : Machine} : m.state.dict.lookupOutside name = some h →
      Machine.DuringWord limit h m m' → During limit (.command (.run name)) m m'
  /-- The host runs the word whose reference is on top of the stack. -/
  | executeTop {r : WordRef} {s : State} {m m' : Machine} : m.state.popRef = .ok r s →
      Machine.DuringWord limit r.handle (m.withState s) m' →
      During limit (.command .executeTop) m m'
  /-- The host runs the word at a handle. -/
  | executeWord {handle : Int} {m m' : Machine} : Machine.DuringWord limit handle m m' →
      During limit (.command (.executeWord handle)) m m'

/-- Is the activity part of a session driven by source? -/
def Activity.SourceDriven : Activity → Prop
  | command c => c.SourceDriven
  | _ => True

end Session

theorem Invariant.TurnEnsures.machine {I : Machine → Prop} {A : Fault → Prop} {t : Repl.Turn}
    (h : TurnEnsures I A t) : I t.machine := by
  cases t with
  | next m => exact h
  | bye m => exact h
  | crash f m => exact h.1

open Session in
/-- An invariant `I` of the acts holds at every moment between tokens; `J` holds at every moment
if it follows from `I` there, and holds while the words run that the acts run. -/
theorem Invariant.during {limit : Limit} {I J : Machine → Prop} {A : Fault → Prop}
    (hI : Invariant limit I A) (hIJ : ∀ {m}, I m → J m)
    (hword : ∀ {h : Nat} {m m' : Machine}, (Act.word h).Allowed m → I m →
      Machine.DuringWord limit h m m' → J m')
    (htop : ∀ {r : WordRef} {s : State} {m m' : Machine}, m.state.popRef = .ok r s → I m →
      Machine.DuringWord limit r.handle (m.withState s) m' → J m')
    {a : Activity} {m m' : Machine} (ha : a.SourceDriven) (h : During limit a m m') (hm : I m) :
    J m' := by
  -- Every rule starts from a machine that an act, or a whole activity, has led to.
  induction h with
  | start a m => exact hIJ hm
  | finish a m =>
      refine hIJ ?_
      cases a with
      | token t => exact (hI.dispatch t hm).1
      | tokens => exact (hI.consumeAtMost _ hm).1
      | source final ts => exact (hI.interpret final ts hm).1
      | answer a => exact (hI.react a hm).machine
      | answers as => exact (hI.converse false as hm).1
      | command c => exact (hI.perform ha hm).1
  | @name name h m m₀ m' hmode hm₀ hl hd =>
      have hmode₀ : m₀.state.mode = .interpret := by
        rw [hm₀]
        split
        · simpa using hmode
        · exact hmode
      have hI₀ : I m₀ := by
        rw [hm₀]
        split
        · exact (hI.act .finish hmode hm).1
        · exact hm
      exact hword ⟨name, .inr ⟨hmode₀, hl⟩⟩ hI₀ hd
  | @immediate name compiling h k w m m' _ _ _ hl _ _ _ hd =>
      have hallowed : (Act.word h).Allowed
          (m.withState (m.state.record (.ranImmediate w.name compiling))) := ⟨name, .inl hl⟩
      exact hword hallowed (hI.act (.record _) trivial hm).1 hd
  | first _ _ ih => exact ih trivial (hI.feed hm _)
  | @later t ts m m₁ m' _ hdispatch _ ih =>
      have hnext := hI.dispatch t (hI.feed hm (some ts))
      rw [hdispatch] at hnext
      exact ih trivial hnext.1
  | source _ ih => exact ih trivial (hI.feed hm _)
  | line _ ih => exact ih trivial hm
  | answer _ ih => exact ih trivial hm
  | @answers a as m m₁ m' hreact _ ih =>
      have hnext := hI.react a hm
      rw [hreact] at hnext
      exact ih trivial hnext
  | execute _ ih => exact ih trivial hm
  | repl _ ih => exact ih trivial (hI.write hm _)
  | @run name h m m' hl hd => exact hword ⟨name, .inl hl⟩ hm hd
  | executeTop hpop hd => exact htop hpop hm hd
  | executeWord => exact absurd ha id

end ThreadedForth
