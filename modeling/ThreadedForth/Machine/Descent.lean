import ThreadedForth.Machine
/-!
# ThreadedForth.Machine.Descent

Why every run ends. A run need not make the frames fewer or the cells fewer: a call adds a
frame with as many cells as the word has. What does go down is the *profile* of the frames, the
numbers of cells they still have to run, innermost first: a call takes one cell from its caller
for whatever it adds above it, and the room of the limit bounds how often something can be added
above.
`Profile.Descends` states the three ways a step moves the profile, and
`Profile.descends_wellFounded` that no profile moves for ever.
-/

namespace ThreadedForth

/-- The numbers of cells that the frames of a machine still have to run, innermost first, where
there is room for so many frames. -/
structure Profile (room : Nat) where
  /-- The numbers, innermost first. -/
  lengths : List Nat
  deriving DecidableEq, Repr

namespace Profile

variable {room : Nat}

/-- How a step moves the profile, given as the profile after and before it. -/
inductive Descends : Profile room → Profile room → Prop where
  /-- A finished frame is popped. -/
  | ret (rest : List Nat) : Descends ⟨rest⟩ ⟨0 :: rest⟩
  /-- A cell is run that calls nothing. -/
  | advance (n : Nat) (rest : List Nat) : Descends ⟨n :: rest⟩ ⟨(n + 1) :: rest⟩
  /-- A cell is run that calls a word of `k` cells, for which there is room. -/
  | call (k n : Nat) (rest : List Nat) (h : rest.length + 1 < room) :
      Descends ⟨k :: n :: rest⟩ ⟨(n + 1) :: rest⟩

/-- The empty profile is a bottom. -/
theorem acc_nil : Acc Descends (⟨[]⟩ : Profile room) :=
  ⟨_, fun _ h => nomatch h⟩

/-- If a profile cannot move for ever, neither can it with a frame added: by induction on how
many more frames there is room for above it, and then on the cells of the added frame. -/
theorem acc_cons (free : Nat) : ∀ {rest : List Nat},
    room - rest.length ≤ free → Acc Descends (⟨rest⟩ : Profile room) →
      ∀ n, Acc Descends (⟨n :: rest⟩ : Profile room) := by
  induction free with
  | zero =>
    intro rest hfree hacc n
    induction n with
    | zero => exact ⟨_, fun _ h => by cases h; exact hacc⟩
    | succ n ih =>
      refine ⟨_, fun _ h => ?_⟩
      cases h with
      | advance => exact ih
      | call k _ _ hk => omega
  | succ free ihFree =>
    intro rest hfree hacc n
    induction n with
    | zero => exact ⟨_, fun _ h => by cases h; exact hacc⟩
    | succ n ih =>
      refine ⟨_, fun _ h => ?_⟩
      cases h with
      | advance => exact ih
      | call k _ _ hk => exact ihFree (by simp; omega) ih k

theorem descends_wellFounded : WellFounded (@Descends room) := by
  refine ⟨fun ⟨lengths⟩ => ?_⟩
  induction lengths with
  | nil => exact acc_nil
  | cons n rest ih => exact acc_cons _ (Nat.le_refl _) ih n

instance : WellFoundedRelation (Profile room) := ⟨Descends, descends_wellFounded⟩

end Profile

namespace Machine

/-- The profile of a machine's frames. -/
def profile (room : Nat) (m : Machine) : Profile room := ⟨m.calls.frames.map (·.rest.length)⟩

/-- A word is entered only if there is room for its frame. -/
theorem calls_enter {limit : Limit} {w : Word} {m m' : Machine} (h : m.enter limit w = .ok () m') :
    m.calls.depth < limit.room ∧ m'.calls = m.calls.push (.start w) := by
  unfold enter at h
  split at h
  · simp at h
  next hnone =>
    cases h
    exact ⟨Limit.refusal?_eq_none_iff.1 hnone, rfl⟩

/-- A call that succeeds adds the frame of an entry. -/
theorem calls_call {limit : Limit} {handle : Int} {m m' : Machine}
    (h : m.call limit handle = .ok () m') :
    m.calls.depth < limit.room ∧
      ∃ w ∈ m'.state.dict.entries, m'.calls = m.calls.push (.start w) := by
  have hstate := m.state_call limit handle
  rw [h] at hstate
  unfold call at h
  split at h
  · simp at h
  next w hw =>
    refine ⟨(calls_enter h).1, w, ?_, (calls_enter h).2⟩
    rw [show m'.state = m.state from hstate]
    exact Dictionary.mem_of_word? hw

/-- Running a cell either leaves the call stack alone or, if there is room, adds the frame of an
entry. -/
theorem calls_runCell {limit : Limit} {c : Cell} {m m' : Machine}
    (h : m.runCell limit c = .ok () m') :
    m'.calls = m.calls ∨
      m.calls.depth < limit.room ∧
        ∃ w ∈ m'.state.dict.entries, m'.calls = m.calls.push (.start w) := by
  cases c with
  | word r => exact .inr (calls_call h)
  | literal v =>
    cases h
    exact .inl rfl
  | primitive p =>
    unfold runCell runPrimitive at h
    cases hp : p.run m.state with
    | fail f s => simp [hp] at h
    | ok wanted s =>
      cases wanted with
      | none =>
        simp [hp] at h
        exact .inl (by rw [← h]; rfl)
      | some r =>
        simp [hp] at h
        simpa using Or.inr (a := m'.calls = m.calls) (calls_call h)

/-- A step of a machine with frames moves its profile down. -/
theorem descends_step {limit : Limit} {m m' : Machine} (hm : 0 < m.calls.depth)
    (h : m.step limit = .ok () m') :
    Profile.Descends (m'.profile limit.room) (m.profile limit.room) := by
  have hdepth := m.calls.depth_eq
  unfold step at h
  unfold profile
  split at h
  next hnil => simp [hdepth, hnil] at hm
  next f fs hf =>
    have htail : m.calls.pop.frames = fs := by simp [hf]
    split at h
    next hrest =>
      cases h
      simpa [hf, hrest] using Profile.Descends.ret (fs.map (·.rest.length))
    next c rest hrest =>
      rw [hf]
      simp only [List.map_cons, hrest, List.length_cons]
      rcases calls_runCell h with heq | ⟨hlt, w, -, heq⟩
      · rw [heq]
        simpa [hf] using Profile.Descends.advance rest.length (fs.map (·.rest.length))
      · rw [heq]
        have hroom : fs.length + 1 < limit.room := by simpa [hdepth, hf] using hlt
        simpa [hf] using Profile.Descends.call w.code.length rest.length
          (fs.map (·.rest.length)) (by simpa using hroom)

end Machine

end ThreadedForth
