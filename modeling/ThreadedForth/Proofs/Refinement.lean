import ThreadedForth.Proofs.Evaluation
/-!
# ThreadedForth.Proofs.Refinement

Threaded code has an obvious recursive meaning: run the cells of a word one by one, and run the
word a cell refers to when it is met. `evalWord` says just that. It carries the chain of the
words that are running, outermost first, which is what the limit on nesting counts and what a
problem is reported with.

The machine does it differently. A call pushes a frame and returns to one loop that all words
share, `execute` pushes a frame and is finished before its word has started, a finished frame is
popped by a step of its own, and all checks of the limit stand in one place.
`executeWord_eq_evalWord` says that nothing can tell the two apart: not the state a run leaves
behind, not the way it fails, and not the words it reports.
-/

namespace ThreadedForth

mutual

/-- The meaning of a word inside the words of `chain`. -/
def evalWord (maxDepth : Int) (chain : List Word) (w : Word) (s : State) : Outcome State Unit :=
  if maxDepth ≤ chain.length then
    .fail (.problem (.tooDeep w.name) (chain.map Word.name)) s
  else evalCells maxDepth (chain ++ [w]) w.code s
termination_by (maxDepth.toNat - chain.length, 0)
decreasing_by
  apply Prod.Lex.left
  simp only [List.length_append, List.length_cons, List.length_nil]
  omega

/-- The meaning of a handle: that of the word it points at. -/
def evalHandle (maxDepth : Int) (chain : List Word) (handle : Int) (s : State) :
    Outcome State Unit :=
  match s.dict.word? handle with
  | none => .fail (.noItem handle) s
  | some w => evalWord maxDepth chain w s
termination_by (maxDepth.toNat - chain.length, 1)

/-- The meaning of cells of the innermost word of `chain`. -/
def evalCells (maxDepth : Int) (chain : List Word) (code : List Cell) (s : State) :
    Outcome State Unit :=
  match code with
  | [] => .ok () s
  | .literal v :: code => evalCells maxDepth chain code (s.push v)
  | .word r :: code =>
    (evalHandle maxDepth chain r.handle s).bind fun _ s => evalCells maxDepth chain code s
  | .primitive (.system .execute) :: code =>
    match s.popRef with
    | .fail f s => .fail (f.traced (chain.map Word.name)) s
    | .ok r s =>
      (evalHandle maxDepth chain r.handle s).bind fun _ s => evalCells maxDepth chain code s
  | .primitive p :: code =>
    match p.run s with
    | .fail f s => .fail (f.traced (chain.map Word.name)) s
    | .ok _ s => evalCells maxDepth chain code s
termination_by (maxDepth.toNat - chain.length, code.length + 1)

end

/-! ### The chain in front of a trace -/

theorem Outcome.mapFault_bind {σ α β : Type} (g : Fault → Fault) (x : Outcome σ α)
    (next : α → σ → Outcome σ β) :
    (x.bind next).mapFault g = (x.mapFault g).bind fun a s => (next a s).mapFault g := by
  cases x <;> rfl

/-- The evaluator without a chain gives the traces from the callee on; the chain is what is
missing in front of them. `hcells` is this fact for the code of a word one call further in. -/
theorem evalHandle_eq_evalCall {n : Int} {free : Nat} {chain : List Word}
    (hfree : n.toNat - chain.length = free)
    (hcells : ∀ {k : Nat}, free = k + 1 → ∀ (w : Word) (s : State),
      evalCells n (chain ++ [w]) w.code s =
        (evalCode (evalCall (.atMost n) k) w.code s).mapFault
          (.within ((chain ++ [w]).map Word.name)))
    (handle : Int) (s : State) :
    evalHandle n chain handle s =
      (evalCall (.atMost n) free handle s).mapFault (.within (chain.map Word.name)) := by
  rw [evalHandle]
  cases hw : s.dict.word? handle with
  | none => simp [evalCall_of_word?_eq_none _ hw]
  | some w =>
      simp only
      rw [evalWord]
      cases free with
      | zero =>
          rw [if_pos (by omega), evalCall_zero _ hw]
          simp [Limit.refusal]
      | succ k =>
          rw [if_neg (by omega), hcells rfl, evalCall_succ _ hw]
          cases evalCode (evalCall (.atMost n) k) w.code s with
          | ok a t => rfl
          | fail f t => simp [Fault.within_within]

theorem evalCells_eq_evalCode {n : Int} (free : Nat) : ∀ {chain : List Word},
    n.toNat - chain.length = free → ∀ (code : List Cell) (s : State),
      evalCells n chain code s =
        (evalCode (evalCall (.atMost n) free) code s).mapFault
          (.within (chain.map Word.name)) := by
  -- On the room left, and inside on the code: a call has less room, the rest less code.
  induction free using Nat.strongRecOn with
  | ind free ihFree =>
  intro chain hfree code
  have hcall := evalHandle_eq_evalCall hfree fun {k} hk w s =>
    ihFree k (by omega) (by simp; omega) w.code s
  induction code with
  | nil =>
      intro s
      simp [evalCells, evalCode]
  | cons c code ih =>
      intro s
      rw [evalCode, Outcome.mapFault_bind]
      cases c with
      | literal v => simp [evalCells, evalCell, ih]
      | word r => simp [evalCells, evalCell, ih, hcall]
      | primitive p =>
          have hplain := p.plain_run s
          by_cases hp : p = .system .execute
          · subst hp
            simp only [evalCells, evalCell, Primitive.run, SystemWord.run] at hplain ⊢
            cases hpop : s.popRef with
            | ok r t => simp [hcall, ih]
            | fail f t =>
                rw [hpop] at hplain
                have hf : f.Untraced := (hplain.2 f rfl).untraced
                simp [Fault.traced_eq_within hf]
          · rw [evalCells]
            · simp only [evalCell]
              cases hrun : p.run s with
              | fail f t =>
                  rw [hrun] at hplain
                  have hf : f.Untraced := (hplain.2 f rfl).untraced
                  simp [Fault.traced_eq_within hf]
              | ok wanted t =>
                  cases wanted with
                  | none => simp [ih]
                  | some r => exact absurd (Primitive.run_eq_ok_some hrun).1 hp
            · exact hp

/-- Executing a word while no word is running has exactly the result of the recursive meaning
of the word at the handle: the same state, and the same success or fault, with the same trace. -/
theorem executeWord_eq_evalWord (maxDepth handle : Int) (s : State) :
    ({ state := s } : Machine).executeWord (.atMost maxDepth) handle =
      match s.dict.word? handle with
      | none => .fail (.noItem handle) { state := s }
      | some w => (evalWord maxDepth [] w s).mapState fun t => { state := t } := by
  have hcall : evalHandle maxDepth [] handle s =
      evalCall (.atMost maxDepth) maxDepth.toNat handle s := by
    rw [evalHandle_eq_evalCall rfl fun {k} hk w s =>
      evalCells_eq_evalCode k (by simp at hk ⊢; omega) w.code s]
    simp only [List.length_nil, Nat.sub_zero, List.map_nil]
    cases evalCall (.atMost maxDepth) maxDepth.toNat handle s <;> simp
  rw [Machine.executeWord_of_idle rfl, Limit.room, ← hcall, evalHandle]
  cases s.dict.word? handle <;> rfl

end ThreadedForth
