import ThreadedForth.Proofs.Execution
/-!
# ThreadedForth.Proofs.Termination

How long a run can take. The interpreter has three loops: one over the cells of running words,
one over tokens and one over the lines of a conversation. None of them counts anything down, so
each is followed here one iteration at a time (`Machine.Loops`, `Session.Takes`): that a loop comes
to its end is a derivation, and the number in it counts the iterations. Functions that end by
definition are not appealed to.

Only the loop over cells is in danger. A call adds a frame, a return takes one away, references
may lead in circles, and `execute` runs whatever word the stack holds. What helps is that a call
is paid for by a cell of the caller: a cell costs more the more frames still fit above its own
(`Profile.cellCost`), so that one of them pays for all cells of a callee. `Profile.weight` adds up
what is left to be paid and goes down in every iteration (`Profile.weight_lt`), as long as no word
has more than `longest` cells. That no word grows during a run is why `longest` can be read off the
dictionary the run starts with.
-/

namespace ThreadedForth

/-! ### The price of a frame -/

namespace Profile

/-- The price of a cell when `free` more frames fit above its own and no word has more than
`longest` cells: its own iteration, and those of everything it can call. -/
def cellCost (longest : Nat) : Nat → Nat
  | 0 => 1
  | free + 1 => longest * cellCost longest free + 2

/-- A cell costs at least its own iteration. -/
theorem cellCost_pos (longest free : Nat) : 0 < cellCost longest free := by
  cases free with
  | zero => exact Nat.one_pos
  | succ free => exact Nat.succ_pos _

/-- The price of all frames: of their cells, and one iteration for popping each of them. -/
def weight (longest room : Nat) : List Nat → Nat
  | [] => 0
  | n :: below => n * cellCost longest (room - (below.length + 1)) + 1 + weight longest room below

/-- Every move makes the frames cheaper. -/
theorem weight_lt {longest room : Nat} {p q : Profile room} (h : Descends p q)
    (hp : ∀ n ∈ p.lengths, n ≤ longest) :
    weight longest room p.lengths < weight longest room q.lengths := by
  cases h with
  | ret rest =>
      simp only [weight]
      omega
  | advance n rest =>
      have hpos := cellCost_pos longest (room - (rest.length + 1))
      simp only [weight, Nat.succ_mul]
      omega
  | call k n rest hroom =>
      -- The called frame has one free place less above it than the caller.
      obtain ⟨free, hfree⟩ : ∃ free, room - (rest.length + 1) = free + 1 :=
        ⟨room - (rest.length + 2), by omega⟩
      have habove : room - ((n :: rest).length + 1) = free := by
        rw [List.length_cons]
        omega
      have hk : k * cellCost longest free ≤ longest * cellCost longest free :=
        Nat.mul_le_mul_right _ (hp k List.mem_cons_self)
      simp only [weight, habove, hfree, Nat.succ_mul, cellCost]
      omega

end Profile

/-- The number of cells of the longest word. -/
def Dictionary.longest (d : Dictionary) : Nat := (d.entries.map (·.code.length)).foldr max 0

/-- No entry is longer than the longest one. -/
theorem Dictionary.length_le_longest {d : Dictionary} {w : Word} (hw : w ∈ d.entries) :
    w.code.length ≤ d.longest := by
  unfold longest
  generalize d.entries = ws at hw
  induction ws with
  | nil => exact absurd hw List.not_mem_nil
  | cons v ws ih =>
      rw [List.map_cons, List.foldr_cons]
      rcases List.mem_cons.1 hw with rfl | hw
      · exact Nat.le_max_left _ _
      · exact Nat.le_trans (ih hw) (Nat.le_max_right _ _)

/-! ### The loop over cells -/

namespace Machine

variable {limit : Limit} {longest : Nat} {m m₁ : Machine}

/-- No word, running or not, has more than `longest` cells to run. -/
structure Within (longest : Nat) (m : Machine) : Prop where
  /-- The bound holds of the entries. -/
  entries : ∀ w ∈ m.state.dict.entries, w.code.length ≤ longest
  /-- The bound holds of what is left of the running words. -/
  frames : ∀ f ∈ m.calls.frames, f.rest.length ≤ longest

/-- A step adds no cell to any entry, so the longest word stays as long as it was. -/
theorem entries_step (h : ∀ w ∈ m.state.dict.entries, w.code.length ≤ longest) :
    ∀ w ∈ (m.step limit).state.state.dict.entries, w.code.length ≤ longest := by
  intro w hw
  have hcode : w.code ∈ m.state.dict.entries.map Word.code := by
    rw [← (m.finishes_step limit).code_eq]
    exact List.mem_map_of_mem hw
  obtain ⟨v, hv, heq⟩ := List.mem_map.1 hcode
  rw [← heq]
  exact h v hv

/-- A frame that is pushed has the cells of an entry, and every other frame has what it had, or a
cell less. -/
theorem Within.step (h : m.Within longest) (hstep : m.step limit = .ok () m₁) :
    m₁.Within longest := by
  have hentries : ∀ w ∈ (m.step limit).state.state.dict.entries, w.code.length ≤ longest :=
    entries_step h.entries
  rw [hstep] at hentries
  refine ⟨hentries, ?_⟩
  have hframes := h.frames
  unfold Machine.step at hstep
  split at hstep
  next hnil =>
    cases hstep
    exact hframes
  next f below hf =>
    rw [hf] at hframes
    have hbelow : ∀ g ∈ m.calls.pop.frames, g.rest.length ≤ longest := by
      intro g hg
      rw [CallStack.frames_pop, hf] at hg
      exact hframes g (List.mem_cons_of_mem f hg)
    split at hstep
    next =>
      cases hstep
      exact hbelow
    next c rest hrest =>
      have hcaller : ∀ g ∈ (m.calls.pop.push { f with rest }).frames, g.rest.length ≤ longest := by
        intro g hg
        rcases List.mem_cons.1 hg with rfl | hg
        · have hlength := hframes f List.mem_cons_self
          rw [hrest, List.length_cons] at hlength
          exact Nat.le_of_succ_le hlength
        · exact hbelow g hg
      rcases calls_runCell hstep with heq | ⟨-, w, hw, heq⟩
      · rw [heq]
        exact hcaller
      · rw [heq]
        intro g hg
        rcases List.mem_cons.1 hg with rfl | hg
        · exact hentries w hw
        · exact hcaller g hg

/-- The loop over cells, entered with a machine, ends with `x` after `n` iterations. -/
inductive Loops (limit : Limit) (base : Nat) : Machine → Nat → Outcome Machine Unit → Prop where
  /-- No frame is left above the base. -/
  | done {m : Machine} : m.calls.depth ≤ base → Loops limit base m 0 (.ok () m)
  /-- A step succeeds, and the loop goes on. -/
  | next {m m₁ : Machine} {n : Nat} {x : Outcome Machine Unit} : base < m.calls.depth →
      m.step limit = .ok () m₁ → Loops limit base m₁ n x → Loops limit base m (n + 1) x
  /-- A step fails. -/
  | stop {m m₁ : Machine} {f : Fault} : base < m.calls.depth → m.step limit = .fail f m₁ →
      Loops limit base m 1 (.fail f m₁)

/-- The execution of the word at a handle ends with `x` after `n` iterations of its loop. -/
inductive Executes (limit : Limit) (handle : Int) (m : Machine) :
    Nat → Outcome Machine Unit → Prop where
  /-- The word cannot be called. -/
  | refused {m₁ : Machine} {f : Fault} : m.call limit handle = .fail f m₁ →
      Executes limit handle m 0 (.fail f m₁)
  /-- The word returns. -/
  | returned {m₁ m₂ : Machine} {n : Nat} : m.call limit handle = .ok () m₁ →
      Loops limit m.calls.depth m₁ n (.ok () m₂) →
      Executes limit handle m n (.ok () (m₂.unwind m.calls.depth))
  /-- The word fails. -/
  | failed {m₁ m₂ : Machine} {n : Nat} {f : Fault} : m.call limit handle = .ok () m₁ →
      Loops limit m.calls.depth m₁ n (.fail f m₂) →
      Executes limit handle m n (.fail (f.traced m₂.trace) (m₂.unwind m.calls.depth))

/-- The loop over cells ends, after no more iterations than its frames are worth. -/
theorem loops_run (limit : Limit) (base : Nat) (h : m.Within longest) :
    ∃ n ≤ Profile.weight longest limit.room (m.profile limit.room).lengths,
      Loops limit base m n (m.run limit base) := by
  fun_induction run limit base m with
  | case1 m hbase m₁ hstep ih =>
      obtain ⟨n, hn, hloops⟩ := ih (h.step hstep)
      have hlt : Profile.weight longest limit.room (m₁.profile limit.room).lengths <
          Profile.weight longest limit.room (m.profile limit.room).lengths := by
        refine Profile.weight_lt (descends_step (by omega) hstep) fun k hk => ?_
        obtain ⟨f, hf, rfl⟩ := List.mem_map.1 hk
        exact (h.step hstep).frames f hf
      exact ⟨n + 1, by omega, .next hbase hstep hloops⟩
  | case2 m hbase f m₁ hstep =>
      -- There is a frame, and popping it alone is worth an iteration.
      refine ⟨1, ?_, .stop hbase hstep⟩
      have hframes : m.calls.frames ≠ [] := by
        intro hnil
        rw [m.calls.depth_eq, hnil] at hbase
        exact Nat.not_lt_zero _ hbase
      obtain ⟨g, below, hg⟩ := List.exists_cons_of_ne_nil hframes
      simp only [profile, hg, List.map_cons, Profile.weight]
      omega
  | case3 m hbase => exact ⟨0, Nat.zero_le _, .done (Nat.le_of_not_lt hbase)⟩

/-- With no word running, the iterations of one execution are bounded by the dictionary and the
limit alone. -/
theorem executes_executeWord (limit : Limit) (handle : Int) {m : Machine} (hm : m.calls = .empty) :
    ∃ n ≤ m.state.dict.longest * Profile.cellCost m.state.dict.longest (limit.room - 1) + 1,
      Executes limit handle m n (m.executeWord limit handle) := by
  unfold executeWord
  cases hc : m.call limit handle with
  | fail f m₁ => exact ⟨0, Nat.zero_le _, .refused hc⟩
  | ok a m₁ =>
      obtain ⟨-, w, hw, hcalls⟩ := calls_call hc
      have hstate := m.state_call limit handle
      rw [hc] at hstate
      rw [show m₁.state = m.state from hstate] at hw
      have hframes : m₁.calls.frames = [.start w] := by
        rw [hcalls, hm]
        rfl
      have hwithin : m₁.Within m.state.dict.longest := by
        refine ⟨fun v hv => ?_, fun f hf => ?_⟩
        · rw [show m₁.state = m.state from hstate] at hv
          exact Dictionary.length_le_longest hv
        · rw [hframes] at hf
          obtain rfl := List.mem_singleton.1 hf
          exact Dictionary.length_le_longest hw
      obtain ⟨n, hn, hloops⟩ := loops_run limit m.calls.depth hwithin
      have hbound : n ≤
          m.state.dict.longest * Profile.cellCost m.state.dict.longest (limit.room - 1) + 1 := by
        refine Nat.le_trans hn ?_
        simp only [profile, hframes, List.map_cons, List.map_nil, Profile.weight, List.length_nil,
          Frame.rest_start, Nat.zero_add, Nat.add_zero]
        exact Nat.succ_le_succ (Nat.mul_le_mul_right _ (Dictionary.length_le_longest hw))
      simp only
      cases hr : m₁.run limit m.calls.depth with
      | ok a m₂ =>
          rw [hr] at hloops
          exact ⟨n, hbound, .returned hc hloops⟩
      | fail f m₂ =>
          rw [hr] at hloops
          exact ⟨n, hbound, .failed hc hloops⟩

/-- The token makes the interpreter execute the word at `h`, from a machine on: while interpreting,
a name executes the word found for it, after an open definition has been finished; while compiling,
it does so if that word is immediate, unless the name is `;`. -/
inductive Starts (m : Machine) : Token → Nat → Machine → Prop where
  | name {name : String} {h : Nat} {m₀ : Machine} : m.state.mode = .interpret →
      m₀ = (if m.state.dict.active.isSome then m.withState m.state.finish else m) →
      m₀.state.dict.lookup name = some h → Starts m (.name name) h m₀
  | immediate {name compiling : String} {h k : Nat} {w : Word} : m.state.mode = .compile →
      m.state.dict.active = some k → name ≠ SystemWord.semicolon.name →
      m.state.dict.lookupOutside name = some h → m.state.dict.entries[h]? = some w →
      w.immediate = true → compiling = (m.state.dict.entries[k]?.map Word.name).getD "" →
      Starts m (.name name) h (m.withState (m.state.record (.ranImmediate w.name compiling)))

variable {t : Token} {h : Nat} {m₀ : Machine}

theorem Starts.dispatch_eq (hs : m.Starts t h m₀) :
    m.dispatch limit t = m₀.executeWord limit h := by
  cases hs with
  | name hmode hm₀ hl =>
      rw [dispatch, hmode]
      simp only [interpretToken]
      rw [← hm₀, runName, hl]
  | immediate hmode hk hname hl hw himmediate hcompiling =>
      rw [dispatch, hmode, hk]
      simp only [compileToken, if_neg hname, compileName, hl, hw, himmediate, if_true]
      rw [hcompiling]

theorem Starts.calls_eq (hs : m.Starts t h m₀) : m₀.calls = m.calls := by
  cases hs with
  | name _ hm₀ _ =>
      rw [hm₀]
      split <;> rfl
  | immediate => rfl

end Machine

/-! ### The loops over tokens and lines -/

namespace Session

/-- The activity comes to its end after `n` iterations of all loops together. -/
inductive Takes (limit : Limit) : Activity → Machine → Nat → Prop where
  | word {t : Token} {h n : Nat} {m m₀ : Machine} : m.Starts t h m₀ →
      Machine.Executes limit h m₀ n (m.dispatch limit t) → Takes limit (.token t) m n
  -- Whatever else a token does, it does in no loop.
  | plain {t : Token} {m : Machine} : (∀ h m₀, ¬ m.Starts t h m₀) → Takes limit (.token t) m 0
  -- The loop over tokens. Its last iteration finds the input used up.
  | usedUp {m : Machine} : m.state.pending = 0 → Takes limit .tokens m 1
  | token {t : Token} {ts : List Token} {m m₁ : Machine} {n k : Nat} :
      m.state.input = some (t :: ts) →
      Takes limit (.token t) (m.withState (m.state.withInput (some ts))) n →
      (m.withState (m.state.withInput (some ts))).dispatch limit t = .ok () m₁ →
      Takes limit .tokens m₁ k → Takes limit .tokens m (n + 1 + k)
  | badToken {t : Token} {ts : List Token} {m m₁ : Machine} {f : Fault} {n : Nat} :
      m.state.input = some (t :: ts) →
      Takes limit (.token t) (m.withState (m.state.withInput (some ts))) n →
      (m.withState (m.state.withInput (some ts))).dispatch limit t = .fail f m₁ →
      Takes limit .tokens m (n + 1)
  | source {final : Bool} {ts : List Token} {m : Machine} {n : Nat} :
      Takes limit .tokens (m.withState (m.state.withInput (some ts))) n →
      Takes limit (.source final ts) m n
  | line {text : String} {m : Machine} {n : Nat} :
      String.ofList (Text.trim text.toList) ≠ Repl.farewell →
      Takes limit (.source false (tokenize text)) m n → Takes limit (.answer (.line text)) m n
  | farewell {text : String} {m : Machine} :
      String.ofList (Text.trim text.toList) = Repl.farewell →
      Takes limit (.answer (.line text)) m 0
  | interrupt {m : Machine} : Takes limit (.answer .interrupt) m 0
  -- The loop over answers. Each iteration shows a prompt, and the last one may get no answer.
  | hangUp {m : Machine} : Takes limit (.answers []) m 1
  | answer {a : Repl.Answer} {as : List Repl.Answer} {m m₁ : Machine} {n k : Nat} :
      Takes limit (.answer a) m n → a.react limit m = .next m₁ → Takes limit (.answers as) m₁ k →
      Takes limit (.answers (a :: as)) m (n + 1 + k)
  | lastAnswer {a : Repl.Answer} {as : List Repl.Answer} {m : Machine} {n : Nat} :
      Takes limit (.answer a) m n → (∀ m₁, a.react limit m ≠ .next m₁) →
      Takes limit (.answers (a :: as)) m (n + 1)
  | execute {text : String} {final : Bool} {m : Machine} {n : Nat} :
      Takes limit (.source final (tokenize text)) m n →
      Takes limit (.command (.execute text final)) m n
  | repl {as : List Repl.Answer} {m : Machine} {n : Nat} :
      Takes limit (.answers as) (m.write Repl.banner) n → Takes limit (.command (.repl as)) m n

variable {limit : Limit} {m : Machine}

/-- A token starts one execution at most. -/
theorem takes_token (limit : Limit) (t : Token) (hm : m.calls = .empty) :
    ∃ n, Takes limit (.token t) m n := by
  by_cases hs : ∃ h m₀, m.Starts t h m₀
  · obtain ⟨h, m₀, hs⟩ := hs
    obtain ⟨n, -, hn⟩ := Machine.executes_executeWord limit h (hs.calls_eq.trans hm)
    rw [← hs.dispatch_eq] at hn
    exact ⟨n, .word hs hn⟩
  · exact ⟨0, .plain fun h m₀ hh => hs ⟨h, m₀, hh⟩⟩

/-- The loop over tokens ends, by induction on the tokens that are left. -/
theorem takes_tokens (limit : Limit) (m : Machine) :
    m.calls = .empty → ∃ n, Takes limit .tokens m n := by
  induction m using Machine.consume_induction limit with
  | done m hpending => exact fun _ => ⟨1, .usedUp hpending⟩
  | token m t ts hinput ih =>
      intro hm
      have htaken : (m.withState (m.state.withInput (some ts))).calls = .empty := hm
      obtain ⟨n, hn⟩ := takes_token limit t htaken
      have hidle := ((Machine.idle_invariant limit).dispatch t htaken).1
      cases hd : (m.withState (m.state.withInput (some ts))).dispatch limit t with
      | fail f m₁ => exact ⟨n + 1, .badToken hinput hn hd⟩
      | ok a m₁ =>
          rw [hd] at hidle
          obtain ⟨k, hk⟩ := ih m₁ hd hidle
          exact ⟨n + 1 + k, .token hinput hn hd hk⟩

theorem takes_source (limit : Limit) (final : Bool) (ts : List Token) (hm : m.calls = .empty) :
    ∃ n, Takes limit (.source final ts) m n := by
  have htaken : (m.withState (m.state.withInput (some ts))).calls = .empty := hm
  obtain ⟨n, hn⟩ := takes_tokens limit _ htaken
  exact ⟨n, .source hn⟩

/-- An answer of the user is a source text, or ends without one. -/
theorem takes_answer (limit : Limit) (a : Repl.Answer) (hm : m.calls = .empty) :
    ∃ n, Takes limit (.answer a) m n := by
  cases a with
  | interrupt => exact ⟨0, .interrupt⟩
  | line text =>
      by_cases hbye : String.ofList (Text.trim text.toList) = Repl.farewell
      · exact ⟨0, .farewell hbye⟩
      · obtain ⟨n, hn⟩ := takes_source limit false (tokenize text) hm
        exact ⟨n, .line hbye hn⟩

/-- The loop over answers ends, by induction on the answers. -/
theorem takes_answers (limit : Limit) (as : List Repl.Answer) : ∀ {m : Machine},
    m.calls = .empty → ∃ n, Takes limit (.answers as) m n := by
  induction as with
  | nil => exact fun _ => ⟨1, .hangUp⟩
  | cons a as ih =>
      intro m hm
      obtain ⟨n, hn⟩ := takes_answer limit a hm
      have hidle := ((Machine.idle_invariant limit).react a hm).machine
      cases hreact : a.react limit m with
      | next m₁ =>
          rw [hreact] at hidle
          obtain ⟨k, hk⟩ := ih hidle
          exact ⟨n + 1 + k, .answer hn hreact hk⟩
      | bye m₁ => exact ⟨n + 1, .lastAnswer hn fun m₂ h => by simp [hreact] at h⟩
      | crash f m₁ => exact ⟨n + 1, .lastAnswer hn fun m₂ h => by simp [hreact] at h⟩

/-- From any state in which no word is running, whatever its dictionary, stack, mode and input,
and under any limit: the execution of a word ends, in a number of iterations that the dictionary
and the limit bound; so every source text and every conversation comes to its end. -/
theorem every_run_ends (limit : Limit) (s : State) :
    (∀ handle : Int,
      ∃ n ≤ s.dict.longest * Profile.cellCost s.dict.longest (limit.room - 1) + 1,
        Machine.Executes limit handle { state := s } n
          (Machine.executeWord limit handle { state := s })) ∧
    (∀ text final, ∃ n, Takes limit (.command (.execute text final)) { state := s } n) ∧
    ∀ answers, ∃ n, Takes limit (.command (.repl answers)) { state := s } n := by
  have hidle : ({ state := s } : Machine).calls = .empty := rfl
  refine ⟨fun handle => Machine.executes_executeWord limit handle hidle, fun text final => ?_,
    fun answers => ?_⟩
  · obtain ⟨n, hn⟩ := takes_source limit final (tokenize text) hidle
    exact ⟨n, .execute hn⟩
  · have hwrite : (Machine.write { state := s } Repl.banner).calls = .empty := rfl
    obtain ⟨n, hn⟩ := takes_answers limit answers hwrite
    exact ⟨n, .repl hn⟩

end Session

end ThreadedForth
