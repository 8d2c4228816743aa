import ThreadedForth.Proofs.Primitive
import ThreadedForth.Session
/-!
# ThreadedForth.Proofs.Session

Sessions in which everything comes from source text: the host feeds source, holds
conversations, runs and lists words by name, moves values that are no references, and aborts,
but it does not edit the dictionary or call words by a handle of its own making
(`Command.SourceDriven`). `Reaches` collects the machines such a session can be in between two
commands.

Whatever the interpreter does in such a session is made of a few acts (`Act`), each done only
under a condition (`Act.Allowed`): a definition is begun only while none is open, a cell is
added only to the open word and comes from a token, a word is run only if a look-up found it. So
to show that something holds throughout all sessions it is enough to show it of the acts
(`Invariant`). Where that depends on the tokens an act deals with, it is enough to show it for
tokens of source texts, since a session has no others (`TokenInvariant`). The lemmas after it follow
the interpreter from the acts up to whole commands, one lemma for each function.
-/

namespace ThreadedForth

namespace Session

/-- Everything the command brings into the interpreter is source text or plain values. -/
def Command.SourceDriven : Command → Prop
  | .execute _ _ | .repl _ | .run _ | .see _ | .executeTop | .abort | .pop | .peek => True
  | .push vs => ∀ v ∈ vs, ∀ r, v ≠ .ref r
  | _ => False

/-- The machines that commands driven by source lead to from a fresh interpreter, each of them
succeeding or failing. -/
inductive Reaches (limit : Limit) : Machine → Prop where
  /-- A fresh interpreter. -/
  | fresh : Reaches limit .initial
  /-- After one more command. -/
  | perform {m : Machine} (c : Command) (hc : c.SourceDriven) :
      Reaches limit m → Reaches limit (perform limit m c).2.state

/-- The machine after some commands, each of them succeeding or failing. -/
def after (limit : Limit) : Machine → List Command → Machine
  | m, [] => m
  | m, c :: cs => after limit (perform limit m c).2.state cs

end Session

/-! ### Acts -/

/-- A cell that a token can add to the open word: an integer, or a reference to a word that is
not immediate and was found below the open one. -/
inductive Dictionary.Compiles (d : Dictionary) : Cell → Prop where
  /-- From an integer. -/
  | literal (n : Int) : d.Compiles (.literal (.int n))
  /-- From a name. -/
  | word {name : String} {h : Nat} {w : Word} : d.lookupOutside name = some h →
      d.entries[h]? = some w → w.immediate = false → d.Compiles (.word w.ref)

/-- What an interpreter does on its way through a session. -/
inductive Act where
  /-- Run the word at a handle. -/
  | word (h : Nat)
  /-- Run the word whose reference is on top of the stack. -/
  | top
  /-- Take the top value. -/
  | pop
  /-- Push values, the first one deepest. -/
  | push (vs : List Value)
  /-- Replace the unread input. -/
  | feed (input : Option (List Token))
  /-- Write a text. -/
  | write (text : String)
  /-- Log an event. -/
  | record (e : Event)
  /-- Finish a definition that was left open. -/
  | finish
  /-- Begin the definition of a word named by a token. -/
  | define (t : Token)
  /-- Add a cell to the entry at an index. -/
  | extend (k : Nat) (c : Cell)
  /-- End the definition on `;`. -/
  | endDefinition
  /-- Forget what a failed run left behind. -/
  | abort

namespace Act

/-- Perform an act. -/
def perform (limit : Limit) (m : Machine) : Act → Outcome Machine Unit
  | word h => m.executeWord limit h
  | top => Session.executeTop limit m
  | pop => (Session.onStack m (Stack.pop (some "pop"))).map fun _ => ()
  | push vs => .ok () (m.withState (m.state.withStack (vs.reverse ++ m.state.stack)))
  | feed input => .ok () (m.withState (m.state.withInput input))
  | write text => .ok () (m.write text)
  | record e => .ok () (m.withState (m.state.record e))
  | finish => .ok () (m.withState m.state.finish)
  | define t => .ok () (m.startDefinition t)
  | extend k c => m.extend k c
  | endDefinition => m.state.endDefinition.mapState m.withState
  | abort => .ok () m.abort

/-- When the interpreter performs an act. -/
def Allowed (m : Machine) : Act → Prop
  | word h => ∃ name, m.state.dict.lookupOutside name = some h ∨
      m.state.mode = .interpret ∧ m.state.dict.lookup name = some h
  | push vs => ∀ v ∈ vs, ∀ r, v ≠ .ref r
  | finish => m.state.mode = .interpret
  | define _ => m.state.mode = .compile ∧ m.state.dict.active = none
  | extend k c => m.state.mode = .compile ∧ m.state.dict.active = some k ∧ m.state.dict.Compiles c
  | _ => True

end Act

/-! ### Small facts about look-ups and states -/

/-- A look-up finds an entry, and the entry answers to the name. -/
theorem Dictionary.lookup_eq_some {d : Dictionary} {name : String} {h : Nat}
    (hl : d.lookup name = some h) : ∃ w, d.entries[h]? = some w ∧ w.answersTo name = true :=
  lastIndex?_eq_some hl

/-- A look-up outside the open word finds an entry below it. -/
theorem Dictionary.lookupOutside_eq_some {d : Dictionary} {name : String} {h : Nat}
    (hl : d.lookupOutside name = some h) :
    (∃ w, d.entries[h]? = some w ∧ w.answersTo name = true) ∧ ∀ k, d.active = some k → h < k := by
  unfold lookupOutside at hl
  split at hl
  next hnone => exact ⟨lookup_eq_some hl, fun k hk => by simp [hnone] at hk⟩
  next k hk =>
    obtain ⟨w, hw, ha⟩ := lastIndex?_eq_some hl
    rw [List.getElem?_take] at hw
    split at hw
    next hlt =>
      refine ⟨⟨w, hw, ha⟩, fun k' hk' => ?_⟩
      obtain rfl : k = k' := by simpa [hk] using hk'
      exact hlt
    next => simp at hw

@[simp] theorem State.mode_finish (s : State) : s.finish.mode = s.mode := by
  unfold finish
  split <;> rfl

/-! ### Invariants -/

/-- A cell that a token can become in a definition: an integer becomes a literal, and a name other
than `;` a call by this name. -/
def Token.Yields : Token → Cell → Prop
  | .int n _, c => c = .literal (.int n)
  | .name text, c => text ≠ SystemWord.semicolon.name ∧ ∃ r : WordRef, c = .word r ∧ r.name = text

/-- All tokens that an act deals with have `T`. -/
def Act.Within (T : Token → Prop) : Act → Prop
  | feed input => ∀ t ∈ input.getD [], T t
  | define t => T t
  | extend _ c => ∃ t : Token, T t ∧ t.Yields c
  | _ => True

/-- `I` is kept by every act that deals with tokens with `T` only, as do all acts of a session; and
every fault has `A`. -/
structure TokenInvariant (limit : Limit) (T : Token → Prop) (I : Machine → Prop)
    (A : Fault → Prop) : Prop where
  /-- The tokens of a source text have `T`. -/
  source : ∀ {text : String} {t : Token}, t ∈ tokenize text → T t
  /-- Unread tokens have `T`. -/
  unread : ∀ {m : Machine}, I m → ∀ t ∈ m.state.input.getD [], T t
  /-- An act keeps `I`, also when it fails. -/
  act : ∀ (a : Act) {m : Machine}, a.Within T → a.Allowed m → I m →
    (a.perform limit m).Ensures I A
  /-- Plain faults have `A`. -/
  plain : ∀ {f : Fault}, f.Plain → A f

/-- `I` is kept by every act, and every fault has `A`. -/
structure Invariant (limit : Limit) (I : Machine → Prop) (A : Fault → Prop) : Prop where
  /-- An act keeps `I`, also when it fails. -/
  act : ∀ (a : Act) {m : Machine}, a.Allowed m → I m → (a.perform limit m).Ensures I A
  /-- Plain faults have `A`. -/
  plain : ∀ {f : Fault}, f.Plain → A f

/-- What the end of a turn must be for an invariant to be kept. -/
def Invariant.TurnEnsures (I : Machine → Prop) (A : Fault → Prop) : Repl.Turn → Prop
  | .next m => I m
  | .bye m => I m
  | .crash f m => I m ∧ A f

namespace TokenInvariant

open Invariant (TurnEnsures)

variable {limit : Limit} {T : Token → Prop} {I : Machine → Prop} {A : Fault → Prop} {m : Machine}
  (hI : TokenInvariant limit T I A)
include hI

/-- Input is replaced without harm, as long as the new tokens have what is asked of tokens. -/
theorem feed (hm : I m) {input : Option (List Token)} (hinput : ∀ t ∈ input.getD [], T t) :
    I (m.withState (m.state.withInput input)) :=
  (hI.act (.feed input) hinput trivial hm).1

theorem write (hm : I m) (text : String) : I (m.write text) :=
  (hI.act (.write text) trivial trivial hm).1

theorem abort (hm : I m) : I m.abort := (hI.act .abort trivial trivial hm).1

/-! ### Tokens -/

/-- A name that a look-up finds is run by one act; one that is not found is a plain fault. -/
theorem runName {lookup : Dictionary → String → Option Nat} {name : String}
    (hlookup : ∀ h, lookup m.state.dict name = some h → (Act.word h).Allowed m) (hm : I m) :
    (m.runName limit lookup name).Ensures I A := by
  unfold Machine.runName
  split
  · exact .fail hm (hI.plain (plain_unknown name))
  next h hl => exact hI.act (.word h) trivial (hlookup h hl) hm

/-- A token that is interpreted is a value pushed or a word run, perhaps after finishing a
definition. -/
theorem interpretToken (hmode : m.state.mode = .interpret) (t : Token) (hm : I m) :
    (m.interpretToken limit t).Ensures I A := by
  unfold Machine.interpretToken
  -- A definition left open is finished first, which does not change the mode.
  obtain ⟨m', hm', hmode', heq⟩ : ∃ m', I m' ∧ m'.state.mode = .interpret ∧
      (if m.state.dict.active.isSome then m.withState m.state.finish else m) = m' := by
    split
    · have hfinish := hI.act .finish trivial hmode hm
      exact ⟨m.withState m.state.finish, hfinish.1, by simpa using hmode, rfl⟩
    · exact ⟨m, hm, hmode, rfl⟩
  rw [heq]
  cases t with
  | int n text => exact hI.act (.push [.int n]) trivial (by simp [Act.Allowed]) hm'
  | name name => exact hI.runName (fun h hl => ⟨name, .inr ⟨hmode', hl⟩⟩) hm'

/-- A name that is compiled runs an immediate word or adds a call of this very name. -/
theorem compileName {k : Nat} (hmode : m.state.mode = .compile)
    (hk : m.state.dict.active = some k) {name : String} (hname : name ≠ SystemWord.semicolon.name)
    (ht : T (.name name)) (hm : I m) : (m.compileName limit k name).Ensures I A := by
  unfold Machine.compileName
  split
  · exact .fail hm (hI.plain (plain_unknown name))
  next h hl =>
    -- What a look-up finds is an entry, so the index is never out of range.
    obtain ⟨⟨w, hw, ha⟩, -⟩ := Dictionary.lookupOutside_eq_some hl
    simp only [hw]
    split
    · exact hI.act (.word h) trivial ⟨name, .inl hl⟩ (hI.act (.record _) trivial trivial hm).1
    next himm =>
      have hwname : w.name = name ∧ w.hidden = false := by simpa [Word.answersTo] using ha
      have hyields : (Token.name name).Yields (.word w.ref) := ⟨hname, w.ref, rfl, hwname.1⟩
      exact hI.act (.extend k _) ⟨_, ht, hyields⟩
        ⟨hmode, hk, .word hl hw (by simpa using himm)⟩ hm

/-- A token that is compiled keeps the invariant: a literal, a call, or what an immediate word does.
-/
theorem compileToken {k : Nat} (hmode : m.state.mode = .compile)
    (hk : m.state.dict.active = some k) {t : Token} (ht : T t) (hm : I m) :
    (m.compileToken limit k t).Ensures I A := by
  unfold Machine.compileToken
  split
  next n text => exact hI.act (.extend k _) ⟨_, ht, rfl⟩ ⟨hmode, hk, .literal n⟩ hm
  next name =>
    split
    · exact hI.act .endDefinition trivial trivial hm
    next hname => exact hI.compileName hmode hk hname ht hm

/-- Whatever the mode, one token is dealt with by acts that are allowed in it. -/
theorem dispatch {t : Token} (ht : T t) (hm : I m) : (m.dispatch limit t).Ensures I A := by
  unfold Machine.dispatch
  cases hmode : m.state.mode with
  | interpret => exact hI.interpretToken hmode t hm
  | compile =>
      cases hactive : m.state.dict.active with
      | none => exact hI.act (.define t) ht ⟨hmode, hactive⟩ hm
      | some k => exact hI.compileToken hmode hactive ht hm

/-! ### Source -/

/-- Taking tokens keeps the invariant, by induction on how many are taken at most. -/
theorem consumeAtMost (n : Nat) : ∀ {m : Machine}, I m → (m.consumeAtMost limit n).Ensures I A := by
  induction n with
  | zero => exact fun hm => .ok hm
  | succ n ih =>
      intro m hm
      unfold Machine.consumeAtMost
      split
      next t ts hinput =>
        have hunread := hI.unread hm
        rw [hinput] at hunread
        have hts : ∀ u ∈ (some ts).getD [], T u := fun u hu => hunread u (List.mem_cons_of_mem t hu)
        have ht : T t := hunread t List.mem_cons_self
        exact .bind (hI.dispatch ht (hI.feed hm hts)) fun _ m' _ hm' => ih hm'
      · exact .ok hm

theorem consume (hm : I m) : (m.consume limit).Ensures I A := hI.consumeAtMost _ hm

/-- A list of tokens is interpreted by acts, between two replacements of the input. -/
theorem interpret (final : Bool) {tokens : List Token} (htokens : ∀ t ∈ tokens, T t) (hm : I m) :
    (m.interpret limit final tokens).Ensures I A := by
  have hfed : I (m.withState (m.state.withInput (some tokens))) := hI.feed hm htokens
  have hconsume := hI.consume hfed
  -- The tokens that were unread before are unread again.
  have hrestore : ∀ {m' : Machine}, I m' → I (m'.withState (m'.state.withInput m.state.input)) :=
    fun hm' => hI.feed hm' (hI.unread hm)
  unfold Machine.interpret
  simp only
  split
  next f m' h =>
    rw [h] at hconsume
    exact .fail (hrestore hconsume.1) (hconsume.2 f rfl)
  next m' h =>
    rw [h] at hconsume
    split
    · exact .fail (hrestore hconsume.1) (hI.plain (plain_truncated _))
    · exact .ok (hrestore hconsume.1)

/-- A source text keeps the invariant, since its tokens have what is asked of tokens. -/
theorem execute (final : Bool) (source : String) (hm : I m) :
    (m.execute limit final source).Ensures I A :=
  hI.interpret final (fun _ ht => hI.source ht) hm

/-! ### Conversations -/

/-- A line typed by the user keeps the invariant, whether it is executed, refused or ends the
conversation. -/
theorem turn (line : String) (hm : I m) : TurnEnsures I A (Repl.turn limit line m) := by
  have hexecute := hI.execute false line hm
  unfold Repl.turn
  split
  · exact hm
  cases h : m.execute limit false line with
  | ok a m' =>
      rw [h] at hexecute
      simp only
      split
      · exact hI.write hexecute.1 _
      · exact hexecute.1
  | fail f m' =>
      rw [h] at hexecute
      cases f with
      | problem p trace => exact hI.abort (hI.write hexecute.1 _)
      | badIndex why => exact ⟨hexecute.1, hexecute.2 _ rfl⟩
      | blankLimit => exact ⟨hexecute.1, hexecute.2 _ rfl⟩
      | digitLimit => exact ⟨hexecute.1, hexecute.2 _ rfl⟩

/-- Whatever the user answers keeps the invariant, an interrupt included. -/
theorem react (a : Repl.Answer) (hm : I m) : TurnEnsures I A (a.react limit m) := by
  cases a with
  | line text => exact hI.turn text hm
  | interrupt => exact hI.abort (hI.write hm _)

/-- A conversation keeps the invariant, by induction on the answers. -/
theorem converse (echo : Bool) (answers : List Repl.Answer) : ∀ {m : Machine}, I m →
    (Repl.converse limit echo answers m).2.Ensures I A := by
  induction answers with
  | nil =>
      intro m hm
      unfold Repl.converse
      split
      · exact .ok (hI.write hm _)
      · exact .ok hm
  | cons a rest ih =>
      intro m hm
      unfold Repl.converse
      obtain ⟨m', hm', heq⟩ : ∃ m', I m' ∧ (if echo then m.write (Repl.prompt m) else m) = m' := by
        split
        · exact ⟨_, hI.write hm _, rfl⟩
        · exact ⟨m, hm, rfl⟩
      simp only [heq]
      have hreact := hI.react a hm'
      cases hturn : a.react limit m' with
      | next m'' =>
          rw [hturn] at hreact
          exact ih hreact
      | bye m'' =>
          rw [hturn] at hreact
          exact .ok hreact
      | crash f m'' =>
          rw [hturn] at hreact
          exact .fail hreact.1 hreact.2

/-! ### Commands -/

/-- Listing a word changes nothing, and can only fail by a plain fault. -/
theorem see (name : String) (hm : I m) :
    (((m.state.resolve name).mapState m.withState).bind fun w m => Session.sourceOf w m).Ensures
      I A := by
  have hstate := m.state.state_resolve name
  have hplain := m.state.resolve_ensures name
  cases h : m.state.resolve name with
  | ok w s =>
      rw [h] at hstate
      obtain rfl : s = m.state := hstate
      exact .map _ (.of_ofText? hm (hI.plain trivial))
  | fail f s =>
      rw [h] at hstate hplain
      obtain rfl : s = m.state := hstate
      exact .fail hm (hI.plain (hplain.2 f rfl))

/-- A command driven by source keeps an invariant. -/
theorem perform {c : Session.Command} (hc : c.SourceDriven) (hm : I m) :
    (Session.perform limit m c).2.Ensures I A := by
  cases c with
  | execute source final => exact .map _ (hI.execute final source hm)
  | repl answers => exact .map _ (hI.converse false answers (hI.write hm _))
  | push vs => exact .ok (hI.act (.push vs) trivial hc hm).1
  | pop =>
      have hpop := hI.act .pop trivial trivial hm
      unfold Act.perform at hpop
      simp only [Session.perform]
      cases h : Session.onStack m (Stack.pop (some "pop")) with
      | ok v m' =>
          rw [h] at hpop
          exact .ok hpop.1
      | fail f m' =>
          rw [h] at hpop
          exact .fail hpop.1 (hpop.2 f rfl)
  | peek =>
      refine .map _ ?_
      unfold Session.onStack
      cases h : m.state.stack with
      | nil =>
          refine .fail ?_ (hI.plain (plain_underflow _))
          rwa [← h]
      | cons v rest =>
          refine .ok ?_
          rwa [← h]
  | run name => exact .map _ (hI.runName (fun h hl => ⟨name, .inl hl⟩) hm)
  | see name => exact hI.see name hm
  | abort => exact .ok (hI.abort hm)
  | executeTop => exact .map _ (hI.act .top trivial trivial hm)
  | _ => exact absurd hc (by simp [Session.Command.SourceDriven])

/-- An invariant of a fresh interpreter holds between any two commands. -/
theorem of_reaches (hinitial : I .initial) (h : Session.Reaches limit m) : I m := by
  induction h with
  | fresh => exact hinitial
  | perform c hc _ ih => exact (hI.perform hc ih).1

end TokenInvariant

/-! ### Invariants of all acts -/

namespace Invariant

variable {limit : Limit} {I : Machine → Prop} {A : Fault → Prop} {m : Machine}
  (hI : Invariant limit I A)
include hI

/-- An invariant of all acts is one that asks nothing of the tokens. -/
theorem tokenInvariant : TokenInvariant limit (fun _ => True) I A where
  source := fun _ => trivial
  unread := fun _ _ _ => trivial
  act := fun a _ _ ha hm => hI.act a ha hm
  plain := hI.plain

theorem feed (hm : I m) (input : Option (List Token)) : I (m.withState (m.state.withInput input)) :=
  (hI.act (.feed input) trivial hm).1

theorem write (hm : I m) (text : String) : I (m.write text) := (hI.act (.write text) trivial hm).1

theorem abort (hm : I m) : I m.abort := (hI.act .abort trivial hm).1

theorem dispatch (t : Token) (hm : I m) : (m.dispatch limit t).Ensures I A :=
  hI.tokenInvariant.dispatch trivial hm

theorem consumeAtMost (n : Nat) (hm : I m) : (m.consumeAtMost limit n).Ensures I A :=
  hI.tokenInvariant.consumeAtMost n hm

theorem interpret (final : Bool) (tokens : List Token) (hm : I m) :
    (m.interpret limit final tokens).Ensures I A :=
  hI.tokenInvariant.interpret final (fun _ _ => trivial) hm

theorem execute (final : Bool) (source : String) (hm : I m) :
    (m.execute limit final source).Ensures I A := hI.interpret final _ hm

theorem turn (line : String) (hm : I m) : TurnEnsures I A (Repl.turn limit line m) :=
  hI.tokenInvariant.turn line hm

theorem react (a : Repl.Answer) (hm : I m) : TurnEnsures I A (a.react limit m) :=
  hI.tokenInvariant.react a hm

theorem converse (echo : Bool) (answers : List Repl.Answer) (hm : I m) :
    (Repl.converse limit echo answers m).2.Ensures I A := hI.tokenInvariant.converse echo answers hm

theorem perform {c : Session.Command} (hc : c.SourceDriven) (hm : I m) :
    (Session.perform limit m c).2.Ensures I A := hI.tokenInvariant.perform hc hm

/-- An invariant is kept by any number of commands driven by source. -/
theorem after (cs : List Session.Command) : ∀ {m : Machine}, (∀ c ∈ cs, c.SourceDriven) → I m →
    I (Session.after limit m cs) := by
  induction cs with
  | nil => exact fun _ hm => hm
  | cons c cs ih =>
      intro m hcs hm
      have hnext := (hI.perform (hcs c List.mem_cons_self) hm).1
      exact ih (fun b hb => hcs b (List.mem_cons_of_mem c hb)) hnext

theorem of_reaches (hinitial : I .initial) (h : Session.Reaches limit m) : I m :=
  hI.tokenInvariant.of_reaches hinitial h

end Invariant

end ThreadedForth
