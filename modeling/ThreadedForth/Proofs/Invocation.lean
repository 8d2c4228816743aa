import Mathlib
import ThreadedForth.CommandLine.Run
import ThreadedForth.Proofs.Logging
/-!
# ThreadedForth.Proofs.Invocation

A source file, and the same source on the command line.

The two come to the interpreter by different ways: one as the bytes of a file, which are decoded and
whose line ends are unified, the other as the value of a flag. They arrive as the same text
(`sourceOfBytes_toUTF8`, `readArguments_eval`), which matters because line ends decide where a
comment stops. What is left is the log, where a file leaves a line more and has its own name; unless
more of the log is asked for, that is not shown, and hence makes no difference (`runSource_eq`).
-/

namespace ThreadedForth

/-! ### The text of a file -/

/-- A text with a line feed in place of every carriage return that a line feed follows, together
with that line feed. -/
def joinLineEnds : List Char → List Char
  | [] => []
  | '\r' :: '\n' :: cs => '\n' :: joinLineEnds cs
  | c :: cs => c :: joinLineEnds cs

/-- First the pairs are joined, then every return that is left becomes a line feed. -/
theorem unifyLineEnds_eq (cs : List Char) :
    unifyLineEnds cs = (joinLineEnds cs).map fun c => if c = '\r' then '\n' else c := by
  fun_induction joinLineEnds cs with
  | case1 => rfl
  | case2 cs ih =>
      rw [unifyLineEnds, ih]
      rfl
  | case3 c cs hne ih =>
      rw [unifyLineEnds, ih]
      · rfl
      · exact hne

/-- The text as it is read from a file: first every carriage return with a line feed after it, then
every carriage return that is left, is replaced by a line feed. -/
def universalNewlines (s : String) : String :=
  String.ofList ((joinLineEnds s.toList).map fun c => if c = '\r' then '\n' else c)

/-- Decoding gives back the text that was encoded. -/
theorem Utf8.decode_toUTF8 (s : String) : decode s.toUTF8 = .ok s := by
  have hvalid : String.fromUTF8? s.toUTF8 = some s := by
    simp only [String.fromUTF8?, String.toUTF8_eq_toByteArray, dif_pos s.isValidUTF8]
    rfl
  rw [decode, hvalid]

/-- A file that holds a text in UTF-8 gives back the text, up to its line ends. -/
theorem sourceOfBytes_toUTF8 (s : String) : sourceOfBytes s.toUTF8 = .ok (universalNewlines s) := by
  rw [sourceOfBytes, Utf8.decode_toUTF8, universalNewlines, ← unifyLineEnds_eq]

namespace CommandLine

/-! ### Arguments -/

/-- No spelling of a flag has an equals sign in it. -/
theorem Flag.ofSpelling?_eq_none {s : String} (h : '=' ∈ s.toList) : ofSpelling? s = none := by
  have hplain : ∀ p ∈ spellings, '=' ∉ p.1.toList := by decide
  refine List.lookup_eq_none_iff.2 ?_
  intro p hp
  have hne : s ≠ p.1 := by
    rintro rfl
    exact hplain p hp h
  simpa using hne

/-- What follows the first equals sign is the value of the flag, whatever it begins with. -/
theorem Piece.classify_eval (source : String) :
    classify ("--eval=" ++ source) = .ok (.flag .eval false (some source)) := by
  have hlist : ("--eval=" ++ source).toList =
      ['-', '-', 'e', 'v', 'a', 'l', '='] ++ source.toList := by
    rw [String.toList_append]
    rfl
  have hspelling : Flag.ofSpelling? ("--eval=" ++ source) = none := by
    refine Flag.ofSpelling?_eq_none ?_
    rw [hlist]
    simp
  have hsplit : splitEquals (['-', '-', 'e', 'v', 'a', 'l', '='] ++ source.toList) =
      (['-', '-', 'e', 'v', 'a', 'l'], some source.toList) := rfl
  have hstem : Flag.ofSpelling? (String.ofList ['-', '-', 'e', 'v', 'a', 'l']) = some .eval := by
    decide
  unfold classify
  simp only [hlist, List.cons_append, List.nil_append] at hsplit ⊢
  simp [hspelling, hsplit, hstem]

/-- A piece that does not begin with a dash is a value. -/
theorem Piece.classify_value {text : String} (h : text.toList.head? ≠ some '-') :
    classify text = .ok (.value text) := by
  unfold classify
  split
  next second more heq =>
    rw [heq] at h
    exact absurd rfl h
  next => rfl

theorem readArguments_program {name : String} (h : name.toList.head? ≠ some '-') :
    readArguments [name] = .ok { program := some name } := by
  have hdivider : name ≠ divider := by
    rintro rfl
    exact h rfl
  have hpieces : classifyAll [name] = .ok [.value name] := by
    rw [classifyAll, if_neg hdivider, Piece.classify_value h]
    rfl
  rw [readArguments, hpieces]
  rfl

theorem readArguments_eval {source : String} (h : source ≠ divider) :
    readArguments ["--eval=" ++ source] = .ok { source := some source } := by
  have hdivider : "--eval=" ++ source ≠ divider := by
    intro heq
    have hlist := congrArg String.length heq
    rw [String.length_append] at hlist
    have : "--eval=".length = 7 := by decide
    have : divider.length = 2 := by decide
    omega
  have hpieces : classifyAll ["--eval=" ++ source] = .ok [.flag .eval false (some source)] := by
    rw [classifyAll, if_neg hdivider, Piece.classify_eval]
    rfl
  have huse : Settings.apply {} ⟨.eval, source⟩ = .ok { source := some source } := by
    simp only [Settings.apply, if_neg h]
  rw [readArguments, hpieces]
  show (do
    let p ← Progress.use {} [⟨.eval, source⟩]
    p.finish) = _
  rw [Progress.use, Settings.applyAll, List.foldlM_cons, huse]
  rfl

/-! ### Reports -/

variable {threshold : Level}

/-- Of a machine its report shows the output, and of its log what is to be shown. -/
theorem reportOf_eq {m n : Machine} (h : m.state.SameShown threshold n.state) (ending : Ending)
    (text : String) : reportOf threshold ending m text = reportOf threshold ending n text := by
  rw [reportOf, reportOf, h.out_eq, h.render_eq]

/-- A message below the threshold does not show. -/
theorem reportOf_completed (h : Level.info.rank < threshold.rank) (ending : Ending) (m : Machine)
    (origin text : String) (depth : Nat) :
    reportOf threshold ending (m.withState (m.state.record (.completed origin depth))) text =
      reportOf threshold ending m text :=
  reportOf_eq (.record_left m.state (.completed origin depth) h) ending text

/-- A source has the same report wherever it came from, if what is logged about that is not
shown. -/
theorem runSource_eq {p : Plan} (hinfo : Level.info.rank < p.threshold.rank) {m : Machine}
    (h : m.SameShown p.threshold p.machine) (job job' : Job) (origin origin' source : String) :
    runSource { p with machine := m, job } origin source =
      runSource { p with job := job' } origin' source := by
  have hexecute := h.execute p.limit true source
  simp only [runSource]
  generalize m.execute p.limit true source = x, p.machine.execute p.limit true source = y
    at hexecute ⊢
  cases hexecute with
  | @ok a m n hmn =>
      simp only [reportOf_completed hinfo]
      exact reportOf_eq hmn.state (.exit 0) ""
  | @fail f m n hmn =>
      cases f with
      | problem problem trace =>
          exact reportOf_eq hmn.state (.exit 1) (problemReport problem trace)
      | _ => exact reportOf_eq hmn.state _ ""

/-! ### Runs -/

/-- A program and a source, each alone on the command line, are to be run in the same way. -/
theorem exists_plan {name source : String} (environment : Option String) (hname : name ≠ "repl")
    (hdash : name.toList.head? ≠ some '-') (hsource : source ≠ divider) :
    ∃ p : Plan, p.threshold = .warning ∧ p.machine.calls = .empty ∧
      plan [name] environment = .ok { p with job := .file name } ∧
      plan ["--eval=" ++ source] environment = .ok { p with job := .inline source } := by
  have hjob : Settings.job { program := some name } = .file name := by
    simp only [Settings.job, if_neg hname]
  simp only [plan, readArguments_program hdash, readArguments_eval hsource]
  refine ⟨⟨.atMost (environmentDepth environment).1, .warning, _, .conversation⟩, rfl, ?_, ?_, rfl⟩
  · rfl
  · rw [← hjob]
    rfl

/-- A source file and inline source are the same program. Let reading the file of a name give a text
in UTF-8, whatever else there is on the host, and let the name be neither `repl` nor look like a flag.
Running the file gives the same report, with the same exit status or crash and the same output and
errors, as running the text with its line ends unified as the value of `--eval`; only the value `--`
stands for something else there. -/
theorem run_file_eq_run_eval {name source : String} {files : Files} (hname : name ≠ "repl")
    (hdash : name.toList.head? ≠ some '-') (hfile : files name = .ok source.toUTF8)
    (hsource : universalNewlines source ≠ "--") (environment : Option String) (files' : Files)
    (input input' : String) :
    run [name] environment files input =
      run ["--eval=" ++ universalNewlines source] environment files' input' := by
  obtain ⟨p, hthreshold, hidle, hfilePlan, hevalPlan⟩ :=
    exists_plan environment hname hdash hsource
  have hread : (files name >>= sourceOfBytes) = .ok (universalNewlines source) := by
    rw [hfile]
    exact sourceOfBytes_toUTF8 source
  have hinfo : Level.info.rank < p.threshold.rank := by
    rw [hthreshold]
    decide
  -- That a file was read is logged before it is run.
  have hshown : (p.machine.withState (p.machine.state.record
      (.loaded name (universalNewlines source).length))).SameShown p.threshold p.machine :=
    ⟨hidle, hidle, .record_left p.machine.state _ hinfo⟩
  simp only [run, hfilePlan, hevalPlan, hread, runFile]
  exact runSource_eq hinfo hshown _ _ name "<eval>" (universalNewlines source)

/-- A file with two sorts of line ends, the first of them ending a comment, is named by its whole path.
It runs up to the word that is not known, as its text does on the command line of a host without
files. -/
theorem run_file_eq_run_eval_lines :
    ∃ (files none' : Files) (source : String), "/srv/stars.fs" ≠ "repl" ∧
      "/srv/stars.fs".toList.head? ≠ some '-' ∧ files "/srv/stars.fs" = .ok source.toUTF8 ∧
      source = "\\ stars\r\n: star 42 emit ;\rstar star nonsense" ∧
      universalNewlines source = "\\ stars\n: star 42 emit ;\nstar star nonsense" ∧
      universalNewlines source ≠ "--" ∧
      run ["/srv/stars.fs"] none files "" =
        run ["--eval=" ++ universalNewlines source] none none' "" ∧
      run ["/srv/stars.fs"] none files "" =
        { ending := .exit 1
          stdout := "**"
          stderr := "Error: UnknownWord: nonsense: unknown word\n" } := by
  obtain ⟨source, hsource⟩ :
      ∃ source : String, source = "\\ stars\r\n: star 42 emit ;\rstar star nonsense" := ⟨_, rfl⟩
  obtain ⟨files, hread⟩ : ∃ files : Files, files "/srv/stars.fs" = .ok source.toUTF8 :=
    ⟨fun name => if name = "/srv/stars.fs" then .ok source.toUTF8 else .error .missing, if_pos rfl⟩
  have hlines : universalNewlines source = "\\ stars\n: star 42 emit ;\nstar star nonsense" := by
    rw [hsource]
    decide +kernel
  have hne : universalNewlines source ≠ "--" := by
    rw [hlines]
    decide
  have hrun := run_file_eq_run_eval (by decide) (by decide) hread hne none
    (fun _ => .error .missing) "" ""
  refine ⟨files, _, source, by decide, by decide, hread, hsource, hlines, hne, hrun, hrun.trans ?_⟩
  rw [hlines]
  cbv

end CommandLine

end ThreadedForth
