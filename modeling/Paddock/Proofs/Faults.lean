import Paddock.Proofs.Decision

/-!
# Faults that leave a command

What stops a command becomes its reply. A fault gets past that in four ways, two of which are limits
on how much can be done: the path of the repository holds a NUL, too many directories above the
workspaces are missing, or debug messages are shown and the environment gives the screen a size in
digits that are no numeral, or are too many.
-/

namespace Paddock

set_option autoImplicit false

open World

theorem Numeral.read_eq_error {x : Text} {f : Fault} (h : read x = .error f) :
    f = .notNumeral x ∨ ∃ digits, f = .integerTooLong digits ∧ Text.digitLimit < digits := by
  unfold read at h
  simp only [] at h
  split at h
  · exact .inr ⟨_, (Except.error.inj h).symm, ‹_›⟩
  · split at h
    · simp at h
    · exact .inl (Except.error.inj h).symm

namespace Screen

variable {env : Environment} {name : Text} {f : Fault}

/-- A variable is set to digits alone, and they are no numeral. -/
structure Unreadable (env : Environment) (name : Text) (f : Fault) : Prop where
  nonempty : env.valueOf name ≠ []
  digits : (env.valueOf name).all Glyph.isDigit = true
  read_eq : Numeral.read (env.valueOf name) = .error f
  fault_eq : f = .notNumeral (env.valueOf name)

theorem dimension?_eq_error (h : dimension? env name = .error f) :
    Unreadable env name f ∨ ∃ digits, f = .integerTooLong digits ∧ Text.digitLimit < digits := by
  unfold dimension? at h
  simp only [] at h
  split at h
  · rename_i hdigits
    cases hread : Numeral.read (env.valueOf name) with
    | ok n => simp [hread, bind, Except.bind] at h
    | error g =>
      obtain rfl : g = f := by simpa [hread, bind, Except.bind] using h
      rcases Numeral.read_eq_error hread with hno | hlong
      · exact .inl ⟨hdigits.1, hdigits.2, hread, hno⟩
      · exact .inr hlong
  · simp at h

theorem hasRoom_eq_error {terminal : Bool} (h : hasRoom env terminal = .error f) :
    Unreadable env "COLUMNS" f ∨ Unreadable env "LINES" f ∨
      ∃ digits, f = .integerTooLong digits ∧ Text.digitLimit < digits := by
  unfold hasRoom at h
  cases hcolumns : dimension? env "COLUMNS" with
  | error g =>
    obtain rfl : g = f := by simpa [hcolumns, bind, Except.bind] using h
    rcases dimension?_eq_error hcolumns with hno | hlong
    · exact .inl hno
    · exact .inr (.inr hlong)
  | ok columns =>
    cases hlines : dimension? env "LINES" with
    | error g =>
      obtain rfl : g = f := by simpa [hcolumns, hlines, bind, Except.bind] using h
      exact .inr (dimension?_eq_error hlines)
    | ok lines => simp [hcolumns, hlines, bind, Except.bind] at h

end Screen

namespace Command

variable {σ : Type} {runner : Runner σ} {pool args : List Text} {cwd : Place} {w : World σ}
  {command : Text} {f : Fault} {made : List Request}

def Logs (command : Text) : Prop := command = "create" ∨ command = "destroy" ∨ command = "list"

/-- The faults that leave a command. -/
inductive Escape (runner : Runner σ) (cwd : Place) (w : World σ) : Text → Fault → Prop where
  | nul {repoRoot : Text} (hlog : w.CanLog)
      (hroot : Git.Resolves (runner.answer w.git [] (.toplevel cwd)) repoRoot)
      (hnul : Workspace.nul ∈ repoRoot)
      (h : (Workspace.prepare w.files w.cwd repoRoot w.room.directories).1 = .error .embeddedNul) :
      Escape runner cwd w "create" .embeddedNul
  | tooDeep {repoRoot : Text} {overrun : Overrun} (hlog : w.CanLog)
      (hroot : Git.Resolves (runner.answer w.git [] (.toplevel cwd)) repoRoot)
      (hdeep : w.room.directories < (Workspace.marker repoRoot).parent.parts.length)
      (h : (Workspace.prepare w.files w.cwd repoRoot w.room.directories).1 =
        .error (.tooDeep overrun)) :
      Escape runner cwd w "create" (.tooDeep overrun)
  | unreadable {command : Text} {f : Fault} (hlogs : Logs command) (h : w.CannotLog f)
      (hsize : Screen.Unreadable w.environment "COLUMNS" f ∨
        Screen.Unreadable w.environment "LINES" f) :
      Escape runner cwd w command f
  | overlong {command : Text} {digits : Nat} (hlogs : Logs command)
      (h : w.CannotLog (.integerTooLong digits)) (hlong : Text.digitLimit < digits) :
      Escape runner cwd w command (.integerTooLong digits)

theorem result_of_cannotLog (hlogs : Logs command) (h : w.CannotLog f) :
    resultOf (perform runner pool command args cwd) w = .error f := by
  rw [resultOf, perform_of_cannotLog h hlogs]

theorem result_of_escape (h : Escape runner cwd w command f) :
    resultOf (perform runner pool command args cwd) w = .error f := by
  cases h with
  | nul hlog hroot _ h => exact (create_cameTo_of_bar hlog (.unwritable hroot h)).result_eq
  | tooDeep hlog hroot _ h => exact (create_cameTo_of_bar hlog (.unwritable hroot h)).result_eq
  | unreadable hlogs h _ => exact result_of_cannotLog hlogs h
  | overlong hlogs h _ => exact result_of_cannotLog hlogs h

theorem escape_of_cannotLog (hlogs : Logs command) (h : w.CannotLog f) :
    Escape runner cwd w command f := by
  rcases Screen.hasRoom_eq_error h.unreadable with hcolumns | hlines | ⟨digits, rfl, hlong⟩
  · exact .unreadable hlogs h (.inl hcolumns)
  · exact .unreadable hlogs h (.inr hlines)
  · exact .overlong hlogs h hlong

theorem escape_of_bar (hlog : w.CanLog) (h : Bar runner pool args cwd w (.fault f) made) :
    Escape runner cwd w "create" f := by
  generalize hhalt : Halt.fault f = halt at h
  cases h with
  | @unwritable repoRoot g hroot hg =>
    rcases Workspace.prepare_eq_error hg with ⟨e, rfl⟩ | ⟨⟨overrun, rfl⟩, hdeep⟩ | ⟨rfl, hnul⟩
    · exact absurd hhalt Halt.noConfusion
    · obtain rfl := Halt.fault.inj hhalt
      exact .tooDeep hlog hroot hdeep hg
    · obtain rfl := Halt.fault.inj hhalt
      exact .nul hlog hroot hnul hg
  | _ => exact absurd hhalt Halt.noConfusion

theorem eq_fault_of_reply {halt : Halt} (h : halt.reply = .error f) : halt = .fault f := by
  cases halt with
  | failure failure => exact absurd h (by simp [Halt.reply])
  | fault g => exact congrArg Halt.fault (Except.error.inj h)

theorem escape_of_create (hlog : w.CanLog)
    (h : resultOf (perform runner pool "create" args cwd) w = .error f) :
    Escape runner cwd w "create" f := by
  rcases clear_or_bar runner pool args cwd w with ⟨repoRoot, name, hclear⟩ | ⟨halt, made, hbar⟩
  · rw [(create_cameTo_of_clear hlog hclear).result_eq] at h
    exact absurd h (by simp)
  · rw [(create_cameTo_of_bar hlog hbar).result_eq] at h
    rw [eq_fault_of_reply h] at hbar
    exact escape_of_bar hlog hbar

theorem escape_of_result (h : resultOf (perform runner pool command args cwd) w = .error f) :
    Escape runner cwd w command f := by
  by_cases hlogs : Logs command
  swap
  · rw [Logs, not_or, not_or] at hlogs
    rw [resultOf, perform_of_other hlogs.1 hlogs.2.1 hlogs.2.2] at h
    exact absurd h (by simp)
  by_cases hlog : w.CanLog
  swap
  · obtain ⟨g, hg⟩ := cannotLog_of_not_canLog hlog
    rw [result_of_cannotLog hlogs hg] at h
    obtain rfl := Except.error.inj h
    exact escape_of_cannotLog hlogs hg
  rcases hlogs with rfl | rfl | rfl
  · exact escape_of_create hlog h
  · obtain ⟨reply, made, hcame⟩ := @destroy_returns σ runner pool args cwd w hlog
    rw [hcame.result_eq] at h
    exact absurd h (by simp)
  · obtain ⟨reply, made, hcame⟩ := @list_returns σ runner pool args cwd w hlog
    rw [hcame.result_eq] at h
    exact absurd h (by simp)

/-- A failure of what the command stands for is the reply, word for word. -/
theorem result_of_failure {verb : Verb} {failure : Failure} {v : World σ} (hlog : w.CanLog)
    (hverb : Verb.ofName? command = some verb)
    (h : act runner pool args cwd verb w = .error (.failure failure) v) :
    resultOf (perform runner pool command args cwd) w = .ok ⟨false, failure.message⟩ := by
  have hv : v.CanLog := by
    have hafter := (blind_act runner pool args cwd verb).canLog hlog
    rwa [worldAfter, h] at hafter
  have hdebug : Level.debug.rank ≤ Level.debug.rank := Nat.le_refl _
  obtain ⟨console, hsaid, _⟩ :=
    say_of_canLog (ε := Fault) hv hdebug (failureNotice command failure)
  rw [perform_of_verb hverb, resultOf]
  simp only [settle, h, replyTo]
  rw [bind_ok hsaid]
  rfl

/-- What leaves a command: its reply, or one of the faults that escape. -/
structure Contained (runner : Runner σ) (pool : List Text) (command : Text) (args : List Text)
    (cwd : Place) (w : World σ) : Prop where
  returns : Workspace.nul ∉ (runner.answer w.git [] (.toplevel cwd)).stdout → w.CanLog →
    (∃ reply, resultOf (perform runner pool command args cwd) w = .ok reply) ∨
      ∃ overrun, resultOf (perform runner pool command args cwd) w = .error (.tooDeep overrun)
  escapes : ∀ f, resultOf (perform runner pool command args cwd) w = .error f ↔
    Escape runner cwd w command f
  reported : w.CanLog → ∀ verb failure v, Verb.ofName? command = some verb →
    act runner pool args cwd verb w = .error (.failure failure) v →
    resultOf (perform runner pool command args cwd) w = .ok ⟨false, failure.message⟩

theorem perform_contained (runner : Runner σ) (pool : List Text) (command : Text)
    (args : List Text) (cwd : Place) (w : World σ) :
    Contained runner pool command args cwd w := by
  constructor
  case returns =>
    intro hnul hlog
    cases hresult : resultOf (perform runner pool command args cwd) w with
    | ok reply => exact .inl ⟨reply, rfl⟩
    | error f =>
      right
      cases escape_of_result hresult with
      | nul _ hroot hmem _ => exact absurd (hroot.mem_stdout hmem) hnul
      | tooDeep _ _ _ _ => exact ⟨_, rfl⟩
      | unreadable _ h _ => exact absurd hlog h.not_canLog
      | overlong _ h _ => exact absurd hlog h.not_canLog
  case escapes => exact fun f => ⟨escape_of_result, result_of_escape⟩
  case reported => exact fun hlog verb failure v => result_of_failure hlog

def squaredScreen : World Unit :=
  { bareWorld with environment := [("COLUMNS", "²")], console := { level := some .debug } }

/-- The size of the screen stops a command that git would grant, with no NUL anywhere. -/
theorem unreadable_screen_escapes :
    Workspace.nul ∉ (leftoverOtter.answer squaredScreen.git [] (.toplevel .here)).stdout ∧
      resultOf (perform leftoverOtter ["lynx"] "create" [] .here) squaredScreen =
        .error (.notNumeral "²") := by
  constructor
  · decide +kernel
  · decide +kernel

end Command

end Paddock
