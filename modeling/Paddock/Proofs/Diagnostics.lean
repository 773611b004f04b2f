import Paddock.Proofs.Loading

/-!
# Diagnostics apart

The level in force decides what is written about commands and nothing else. Two runs of a session
that differ in the level come to the same results, requests and files at every step, and as long as
both levels let results through they write the same to standard output.
-/

namespace Paddock

set_option autoImplicit false

namespace Console

variable {env : Environment} {c d : Console} {room : Bool} {level : Level}

theorem level_setLevel (level : Level) (c : Console) :
    (c.setLevel (some level.name)).level = some level := by
  simp only [setLevel, Option.bind_some, Level.ofText?_name, Option.getD_some]

/-- What a message adds to standard output if there is room for it. -/
def spoken (env : Environment) (level : Level) (message : Text) (c : Console) : Text :=
  if (c.isEnabled env level).1 && level.toStdout then c.rendered env (levelStyle level) message
  else []

theorem emit_of_room (h : Screen.hasRoom env c.terminal = .ok room) (level : Level)
    (message : Text) :
    ∃ c', c.emit env level [] message = .ok c' ∧ WritesLike env c' c ∧
      c'.stdout = c.stdout ++ if room then c.spoken env level message else [] := by
  have hquiet := writesLike_isEnabled env level c
  rw [emit_eq, h]
  by_cases he : (c.isEnabled env level).1 = true
  · rw [if_pos he]
    cases room with
    | false => exact ⟨_, rfl, hquiet, (List.append_nil _).symm⟩
    | true =>
      have htold := writesLike_told env level message (c.isEnabled env level).2
      have hextended := (extended_told env level message (c.isEnabled env level).2).stdout
      refine ⟨_, rfl, htold.trans hquiet, hextended.trans ?_⟩
      rw [hquiet.paintsLike.rendered_eq]
      simp only [spoken, he, shares, Bool.true_and, if_true]
      split <;> rfl
  · rw [if_neg he]
    have hsilent : c.spoken env level message = [] := by simp [spoken, he]
    refine ⟨_, rfl, hquiet, ?_⟩
    rw [hsilent, ite_self, List.append_nil]
    rfl

theorem isEnabled_of_toStdout (hlevel : level.toStdout = true)
    (h : (c.level.getD (levelOf env)).rank ≤ Level.info.rank) :
    (c.isEnabled env level).1 = true := by
  rw [isEnabled_fst, decide_eq_true_eq]
  apply h.trans
  cases level <;> first | decide | exact nomatch hlevel

theorem PaintsLike.spoken_eq (h : PaintsLike env c d)
    (hc : (c.level.getD (levelOf env)).rank ≤ Level.info.rank)
    (hd : (d.level.getD (levelOf env)).rank ≤ Level.info.rank) (level : Level) (message : Text) :
    c.spoken env level message = d.spoken env level message := by
  cases hlevel : level.toStdout with
  | false => simp [spoken, hlevel]
  | true =>
    simp only [spoken, isEnabled_of_toStdout hlevel hc, isEnabled_of_toStdout hlevel hd, hlevel,
      h.rendered_eq]

end Console

namespace World

variable {σ ε : Type} {v w : World σ} {a b : Level}

/-- Two runs of one session at two levels. -/
structure Parallel (a b : Level) (v w : World σ) : Prop where
  git : v.git = w.git
  files : v.files = w.files
  cwd : v.cwd = w.cwd
  environment : v.environment = w.environment
  requests : v.requests = w.requests
  room : v.room = w.room
  left : v.console.level.getD (Console.levelOf v.environment) = a
  right : w.console.level.getD (Console.levelOf v.environment) = b
  paint : Console.PaintsLike v.environment v.console w.console
  screen : ∃ room, Screen.hasRoom v.environment v.console.terminal = .ok room
  stdout : a.rank ≤ Level.info.rank → b.rank ≤ Level.info.rank →
    v.console.stdout = w.console.stdout

theorem respects_say_parallel [HasFaults ε] (a b level : Level) (message : Text) :
    Respects (Parallel a b) (say level message : Action σ ε Unit) := by
  intro v w h
  obtain ⟨room, hroom⟩ := h.screen
  obtain ⟨c, hc, hclike, hcout⟩ := Console.emit_of_room hroom level message
  rw [h.paint.terminal] at hroom
  obtain ⟨d, hd, hdlike, hdout⟩ := Console.emit_of_room hroom level message
  rw [say, say, ← h.environment, hc, hd]
  refine ⟨rfl, h.git, h.files, h.cwd, rfl, h.requests, h.room, ?_, ?_, ?_, ?_, ?_⟩
  · exact hclike.level.trans h.left
  · exact hdlike.level.trans h.right
  · exact (hclike.paintsLike.trans h.paint).trans hdlike.paintsLike.symm
  · rw [← h.paint.terminal, ← hclike.terminal] at hroom
    exact ⟨room, hroom⟩
  · intro ha hb
    have hspoken := h.paint.spoken_eq (h.left ▸ ha) (h.right ▸ hb) level message
    show c.stdout = d.stdout
    rw [hcout, hdout, h.stdout ha hb, hspoken]

theorem steady_parallel (a b : Level) (runner : Runner σ) : Steady (Parallel a b) runner where
  git h := h.git
  files h := h.files
  cwd h := h.cwd
  room h := h.room
  advance request h :=
    ⟨congrArg (runner.after · [request]) h.git, h.files, h.cwd, h.environment,
      congrArg (· ++ [request]) h.requests, h.room, h.left, h.right, h.paint, h.screen, h.stdout⟩
  withFiles _ h :=
    ⟨h.git, rfl, h.cwd, h.environment, h.requests, h.room, h.left, h.right, h.paint, h.screen,
      h.stdout⟩
  say _ message := respects_say_parallel a b _ message

def atLevel (level : Level) (w : World σ) : World σ :=
  { w with console := w.console.setLevel (some level.name) }

theorem parallel_atLevel (a b : Level)
    (h : ∃ room, Screen.hasRoom w.environment w.console.terminal = .ok room) :
    Parallel a b (w.atLevel a) (w.atLevel b) where
  git := rfl
  files := rfl
  cwd := rfl
  environment := rfl
  requests := rfl
  room := rfl
  left := by simp only [atLevel, Console.level_setLevel, Option.getD_some]
  right := by simp only [atLevel, Console.level_setLevel, Option.getD_some]
  paint := ⟨rfl, rfl, fun _ _ _ => rfl⟩
  screen := h
  stdout := fun _ _ => rfl

end World

namespace Shell

open Command (Reply)
open World

variable {σ : Type} (runner : Runner σ)

/-- A command, or a line to be understood as one. -/
inductive Step where
  | command (name : Text) (args pool : List Text) (cwd : Place)
  | line (text : Text) (pool : List Text) (cwd : Place)

def Step.run : Step → Action σ Fault Reply
  | command name args pool cwd => Command.perform runner pool name args cwd
  | line text pool cwd => execute runner pool text cwd

/-- What there is to be seen of a step: how it ends, what it asks and writes, and the files it
leaves. -/
structure Seen where
  result : Except Fault Reply
  requests : List Request
  files : FileTree
  stdout : Text
  stderr : Text

def Seen.deed (s : Seen) : Except Fault Reply × List Request × FileTree :=
  (s.result, s.requests, s.files)

def seen (step : Step) (w : World σ) : Seen where
  result := resultOf (step.run runner) w
  requests := (worldAfter (step.run runner) w).requests.drop w.requests.length
  files := (worldAfter (step.run runner) w).files
  stdout := (worldAfter (step.run runner) w).console.stdout.drop w.console.stdout.length
  stderr := (worldAfter (step.run runner) w).console.stderr.drop w.console.stderr.length

/-- What is seen of steps one after the other. A fault ends its step and not the session. -/
def observe : List Step → World σ → List Seen
  | [], _ => []
  | step :: rest, w => seen runner step w :: observe rest (worldAfter (step.run runner) w)

variable {v w : World σ} {a b : Level}

theorem respects_step (a b : Level) (step : Step) :
    Respects (Parallel a b) (step.run runner) := by
  have hsteady := steady_parallel a b runner
  cases step with
  | command name args pool cwd => exact Command.respects_perform hsteady pool name args cwd
  | line text pool cwd => exact respects_execute hsteady (respects_say_parallel a b) text

/-- A step keeps two runs in parallel, and its results are the same in both. -/
theorem parallel_step (h : Parallel a b v w) (step : Step) :
    resultOf (step.run runner) v = resultOf (step.run runner) w ∧
      Parallel a b (worldAfter (step.run runner) v) (worldAfter (step.run runner) w) := by
  have hboth := respects_step runner a b step v w h
  refine ⟨resultOf_eq_of_agree hboth, ?_⟩
  rcases hboth.cases with ⟨_, v', w', hv, hw, h'⟩ | ⟨_, v', w', hv, hw, h'⟩
  · rwa [worldAfter_of_ok hv, worldAfter_of_ok hw]
  · rwa [worldAfter_of_error hv, worldAfter_of_error hw]

theorem deed_seen_eq (h : Parallel a b v w) (step : Step) :
    (seen runner step v).deed = (seen runner step w).deed := by
  obtain ⟨hresult, hafter⟩ := parallel_step runner h step
  simp only [Seen.deed, seen, hresult, hafter.requests, h.requests, hafter.files]

theorem stdout_seen_eq (h : Parallel a b v w) (ha : a.rank ≤ Level.info.rank)
    (hb : b.rank ≤ Level.info.rank) (step : Step) :
    (seen runner step v).stdout = (seen runner step w).stdout := by
  obtain ⟨-, hafter⟩ := parallel_step runner h step
  simp only [seen, hafter.stdout ha hb, h.stdout ha hb]

theorem observe_parallel (h : Parallel a b v w) (steps : List Step) :
    (observe runner steps v).map Seen.deed = (observe runner steps w).map Seen.deed ∧
      (a.rank ≤ Level.info.rank → b.rank ≤ Level.info.rank →
        (observe runner steps v).map Seen.stdout = (observe runner steps w).map Seen.stdout) := by
  induction steps generalizing v w with
  | nil => exact ⟨rfl, fun _ _ => rfl⟩
  | cons step rest ih =>
    obtain ⟨hdeeds, hstdout⟩ := ih (parallel_step runner h step).2
    simp only [observe, List.map_cons]
    refine ⟨List.cons_eq_cons.mpr ⟨deed_seen_eq runner h step, hdeeds⟩, ?_⟩
    intro ha hb
    exact List.cons_eq_cons.mpr ⟨stdout_seen_eq runner h ha hb step, hstdout ha hb⟩

/-- Where the size of the screen can be read, the level has no influence on what steps do, nor on
standard output as long as it lets results through. -/
theorem observe_atLevel
    (h : ∃ room, Screen.hasRoom w.environment w.console.terminal = .ok room) (a b : Level)
    (steps : List Step) :
    (observe runner steps (w.atLevel a)).map Seen.deed =
        (observe runner steps (w.atLevel b)).map Seen.deed ∧
      (a.rank ≤ Level.info.rank → b.rank ≤ Level.info.rank →
        (observe runner steps (w.atLevel a)).map Seen.stdout =
          (observe runner steps (w.atLevel b)).map Seen.stdout) :=
  observe_parallel runner (parallel_atLevel a b h) steps

open Command (bareWorld leftoverOtter)

def mixedSteps : List Step :=
  [.command "create" [] ["lynx"] .here, .command "create" ["otter"] [] .here,
    .line ":lst" ["lynx"] .here]

theorem observe_mixedSteps_atLevel :
    (∃ room, Screen.hasRoom bareWorld.environment bareWorld.console.terminal = .ok room) ∧
      (observe leftoverOtter mixedSteps (bareWorld.atLevel .trace)).map Seen.deed =
        (observe leftoverOtter mixedSteps (bareWorld.atLevel .info)).map Seen.deed ∧
      (observe leftoverOtter mixedSteps (bareWorld.atLevel .trace)).map Seen.stdout =
        (observe leftoverOtter mixedSteps (bareWorld.atLevel .info)).map Seen.stdout := by
  have hroom : ∃ room,
      Screen.hasRoom bareWorld.environment bareWorld.console.terminal = .ok room :=
    ⟨true, by decide +kernel⟩
  obtain ⟨hdeeds, hstdout⟩ := observe_atLevel leftoverOtter hroom .trace .info mixedSteps
  exact ⟨hroom, hdeeds, hstdout (by decide) (by decide)⟩

/-- Where it cannot be read, a step that would go through is stopped by what it is to log. -/
theorem unreadable_screen_tells_level :
    (observe leftoverOtter [.command "create" [] ["lynx"] .here]
        (CommandLine.squaredColumns.atLevel .debug)).map (fun s => (s.result, s.requests)) =
      [(.error (.notNumeral "²"), [])] ∧
    (observe leftoverOtter [.command "create" [] ["lynx"] .here]
        (CommandLine.squaredColumns.atLevel .info)).map (fun s => s.result.isOk) = [true] := by
  decide +kernel

end Shell

end Paddock
