import ThreadedForth.Machine.Run
import ThreadedForth.Token.Lexer
/-!
# ThreadedForth.Machine.Interpret

The outer interpreter. It takes one token after another from the input; what a token does
depends on the mode and on whether a definition has its name yet:

* interpreting, an integer is pushed and a name is run (`interpretToken`);
* compiling without an open word, the token names the new word (`startDefinition`);
* compiling with an open word, the token becomes a cell of it, unless it is `;` or names an
  immediate word (`compileToken`).

Words that run may read from the same input, so the loop follows the input of the machine
(`consume_cons`); it ends because nothing ever puts a token back (`pending_dispatch`).
-/

namespace ThreadedForth

namespace Machine

/-- Run the newest visible word of a name, found by `lookup`. -/
def runName (limit : Limit) (lookup : Dictionary → String → Option Nat) (name : String)
    (m : Machine) : Outcome Machine Unit :=
  match lookup m.state.dict name with
  | none => .fail (.raise (.unknown name)) m
  | some h => m.executeWord limit h

/-- Push an integer, run a name. A definition left open is finished first. -/
def interpretToken (limit : Limit) (t : Token) (m : Machine) : Outcome Machine Unit :=
  let m := if m.state.dict.active.isSome then m.withState m.state.finish else m
  match t with
  | .int n _ => .ok () (m.withState (m.state.push (.int n)))
  | .name name => m.runName limit Dictionary.lookup name

/-- Begin the definition of a word named by the token's text; a marker right after the name is
taken as well, and makes the word immediate. -/
def startDefinition (t : Token) (m : Machine) : Machine :=
  let s := m.state.define t.text
  match s.input with
  | some (next :: rest) =>
    if next.isImmediateMarker then
      m.withState { s with
        input := some rest
        dict := s.dict.modify m.state.dict.size Word.markImmediate }
    else m.withState s
  | _ => m.withState s

/-- Add a cell to the entry at an index. -/
def extend (k : Nat) (c : Cell) (m : Machine) : Outcome Machine Unit :=
  (m.state.dict.extend k c).mapState fun d => m.withState (m.state.withDict d)

/-- Compile a name into the entry at index `k`, or run it if its word is immediate. -/
def compileName (limit : Limit) (k : Nat) (name : String) (m : Machine) : Outcome Machine Unit :=
  match m.state.dict.lookupOutside name with
  | none => .fail (.raise (.unknown name)) m
  | some h =>
    match m.state.dict.entries[h]? with
    | none => .fail (.noItem h) m
    | some w =>
      if w.immediate then
        let compiling := (m.state.dict.entries[k]?.map Word.name).getD ""
        (m.withState (m.state.record (.ranImmediate w.name compiling))).executeWord limit h
      else m.extend k (.word w.ref)

/-- Compile a token into the entry at index `k`; the name `;` ends the definition. -/
def compileToken (limit : Limit) (k : Nat) (t : Token) (m : Machine) : Outcome Machine Unit :=
  match t with
  | .int n _ => m.extend k (.literal (.int n))
  | .name name =>
    if name = SystemWord.semicolon.name then m.state.endDefinition.mapState m.withState
    else m.compileName limit k name

/-- What a token does in the current mode. -/
def dispatch (limit : Limit) (t : Token) (m : Machine) : Outcome Machine Unit :=
  match m.state.mode, m.state.dict.active with
  | .interpret, _ => m.interpretToken limit t
  | .compile, none => .ok () (m.startDefinition t)
  | .compile, some k => m.compileToken limit k t

/-! ### Tokens never add input -/

theorem pending_runName (limit : Limit) (lookup : Dictionary → String → Option Nat)
    (name : String) (m : Machine) :
    (m.runName limit lookup name).state.state.pending ≤ m.state.pending := by
  unfold runName
  split
  · exact Nat.le_refl _
  · exact m.pending_executeWord limit _

theorem pending_interpretToken (limit : Limit) (t : Token) (m : Machine) :
    (m.interpretToken limit t).state.state.pending ≤ m.state.pending := by
  have hfinish :
      (if m.state.dict.active.isSome then m.withState m.state.finish else m).state.pending =
        m.state.pending := by
    split <;> simp
  unfold interpretToken
  cases t with
  | int n text => simp [hfinish]
  | name name => exact Nat.le_trans (pending_runName limit _ name _) (Nat.le_of_eq hfinish)

theorem pending_startDefinition (t : Token) (m : Machine) :
    (m.startDefinition t).state.pending ≤ m.state.pending := by
  have h := m.state.pending_define t.text
  unfold startDefinition
  simp only
  split
  next next rest hinput =>
    split
    · simp only [State.pending, hinput] at h ⊢
      simp at h ⊢
      omega
    · exact Nat.le_of_eq h
  · exact Nat.le_of_eq h

@[simp] theorem pending_extend (k : Nat) (c : Cell) (m : Machine) :
    (m.extend k c).state.state.pending = m.state.pending := by
  simp [extend]

theorem pending_compileToken (limit : Limit) (k : Nat) (t : Token) (m : Machine) :
    (m.compileToken limit k t).state.state.pending ≤ m.state.pending := by
  unfold compileToken
  split
  · simp
  split
  · simpa using m.state.pending_endDefinition
  unfold compileName
  split
  · exact Nat.le_refl _
  split
  · exact Nat.le_refl _
  split
  · exact pending_executeWord limit _ _
  · simp

/-- Dealing with a token adds none to the input, so `consume` comes to an end. -/
theorem pending_dispatch (limit : Limit) (t : Token) (m : Machine) :
    (m.dispatch limit t).state.state.pending ≤ m.state.pending := by
  unfold dispatch
  split
  · exact m.pending_interpretToken limit t
  · exact m.pending_startDefinition t
  · exact m.pending_compileToken limit _ t

/-! ### The loop over tokens -/

/-- Dispatch at most `n` tokens, one after another. -/
def consumeAtMost (limit : Limit) : Nat → Machine → Outcome Machine Unit
  | 0, m => .ok () m
  | n + 1, m =>
    match m.state.input with
    | some (t :: ts) =>
      ((m.withState (m.state.withInput (some ts))).dispatch limit t).bind fun _ m' =>
        consumeAtMost limit n m'
    | _ => .ok () m

/-- Dispatch token after token until the input is used up. -/
def consume (limit : Limit) (m : Machine) : Outcome Machine Unit :=
  m.consumeAtMost limit m.state.pending

/-- A bound that the unread tokens do not reach makes no difference. -/
theorem consumeAtMost_of_pending_le {limit : Limit} {n : Nat} :
    ∀ {m : Machine}, m.state.pending ≤ n → m.consumeAtMost limit n = m.consume limit := by
  have agree : ∀ (n k : Nat) (m : Machine), m.state.pending ≤ n → m.state.pending ≤ k →
      m.consumeAtMost limit n = m.consumeAtMost limit k := by
    have done : ∀ (n : Nat) (m : Machine), m.state.pending = 0 →
        m.consumeAtMost limit n = .ok () m := by
      intro n m h
      cases n with
      | zero => rfl
      | succ n =>
        unfold consumeAtMost
        split
        next t ts hinput => simp [State.pending, hinput] at h
        next => rfl
    intro n
    induction n with
    | zero =>
      intro k m hn hk
      rw [done 0 m (by omega), done k m (by omega)]
    | succ n ih =>
      intro k m hn hk
      cases k with
      | zero => rw [done _ m (by omega), done 0 m (by omega)]
      | succ k =>
        unfold consumeAtMost
        split
        next t ts hinput =>
          have hlength : m.state.pending = ts.length + 1 := by simp [State.pending, hinput]
          have h := pending_dispatch limit t (m.withState (m.state.withInput (some ts)))
          generalize (m.withState (m.state.withInput (some ts))).dispatch limit t = x at h ⊢
          cases x with
          | fail f m' => rfl
          | ok a m' =>
            simp at h
            exact ih k m' (by omega) (by omega)
        next => rfl
  intro m hn
  exact agree n _ m hn (Nat.le_refl _)

/-- With a token to read, that token is dispatched and the rest consumed after it. -/
theorem consume_cons {limit : Limit} {m : Machine} {t : Token} {ts : List Token}
    (h : m.state.input = some (t :: ts)) :
    m.consume limit = ((m.withState (m.state.withInput (some ts))).dispatch limit t).bind
      fun _ m' => m'.consume limit := by
  have hlength : m.state.pending = ts.length + 1 := by simp [State.pending, h]
  rw [consume, hlength, consumeAtMost, h]
  have hle := pending_dispatch limit t (m.withState (m.state.withInput (some ts)))
  simp only
  generalize (m.withState (m.state.withInput (some ts))).dispatch limit t = x at hle ⊢
  cases x with
  | fail f m' => rfl
  | ok a m' =>
    simp at hle
    exact consumeAtMost_of_pending_le hle

/-- With nothing to read there is nothing to do. -/
theorem consume_of_pending_eq_zero {limit : Limit} {m : Machine} (h : m.state.pending = 0) :
    m.consume limit = .ok () m := by
  rw [consume, h, consumeAtMost]

/-- Induction along the loop: a machine with a token to read comes before the one that dispatching
the token leads to. -/
theorem consume_induction (limit : Limit) {motive : Machine → Prop}
    (done : ∀ m : Machine, m.state.pending = 0 → motive m)
    (token : ∀ (m : Machine) (t : Token) (ts : List Token), m.state.input = some (t :: ts) →
      (∀ m', (m.withState (m.state.withInput (some ts))).dispatch limit t = .ok () m' →
        motive m') → motive m) :
    ∀ m, motive m := by
  have bounded : ∀ (n : Nat) (m : Machine), m.state.pending ≤ n → motive m := by
    intro n
    induction n with
    | zero => exact fun m h => done m (Nat.le_zero.1 h)
    | succ n ih =>
      intro m h
      match hinput : m.state.input with
      | none => exact done m (by simp [State.pending, hinput])
      | some [] => exact done m (by simp [State.pending, hinput])
      | some (t :: ts) =>
        refine token m t ts hinput fun m' hm' => ih m' ?_
        have hle := pending_dispatch limit t (m.withState (m.state.withInput (some ts)))
        have hlength : m.state.pending = ts.length + 1 := by simp [State.pending, hinput]
        rw [hm'] at hle
        simp at hle
        omega
  exact fun m => bounded _ m (Nat.le_refl _)

/-- The name of the definition that is open, if it has one yet. -/
def openName? (m : Machine) : Option String := m.state.dict.activeWord?.map Word.name

/-- Interpret tokens, and then put back the input that was there before. At the end of a final
piece of source no definition may be open. -/
def interpret (limit : Limit) (final : Bool) (tokens : List Token) (m : Machine) :
    Outcome Machine Unit :=
  let restore (m' : Machine) : Machine := m'.withState (m'.state.withInput m.state.input)
  match (m.withState (m.state.withInput (some tokens))).consume limit with
  | .fail f m' => .fail f (restore m')
  | .ok () m' =>
    if final && m'.state.mode = .compile then
      .fail (.raise (.truncated m'.openName?)) (restore m')
    else .ok () (restore m')

/-- Interpret a source text. -/
def execute (limit : Limit) (final : Bool) (source : String) (m : Machine) : Outcome Machine Unit :=
  m.interpret limit final (tokenize source)

/-- Forget what a failed run left behind: the stack, the open definition, the mode, the
calls. -/
def abort (m : Machine) : Machine where
  state := { (m.state.withStack []).abandon with mode := .interpret }
  calls := .empty

end Machine

end ThreadedForth
