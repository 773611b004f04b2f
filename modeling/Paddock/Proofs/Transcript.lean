import Paddock.CommandLine.Program
import Paddock.Proofs.Decision
import Paddock.Proofs.InStep

/-!
# Sessions line by line

A text is broken into lines at line feeds and carriage returns. A session over it does what
executing its lines one after the other does, idle ones apart: what the session writes between them
are prompts alone, and neither these nor the greeting have an influence on a line.
-/

namespace Paddock

set_option autoImplicit false

namespace Settings

open World

variable {σ : Type}

theorem speaks_lift {α : Type} (r : Except LoadError α) :
    Speaks (lift r : Action σ LoadError α) := by
  cases r with
  | ok a => exact speaks_pure a
  | error e => exact speaks_throw e

theorem speaks_loadFile (file : Place) : Speaks (loadFile file : Action σ LoadError _) := by
  apply speaks_bind speaks_get
  intro w
  apply speaks_bind (speaks_lift _)
  intro content
  cases content with
  | none => exact speaks_pure _
  | some content =>
    apply speaks_bind (speaks_lift _)
    intro table
    cases table with
    | none => exact speaks_pure _
    | some table =>
      apply speaks_bind (speaks_say _ _)
      intro _
      exact speaks_bind (speaks_lift _) fun _ => speaks_pure _

theorem speaks_presentFiles (files : List Place) :
    Speaks (presentFiles files : Action σ LoadError _) := by
  induction files with
  | nil => exact speaks_pure _
  | cons file rest ih =>
    apply speaks_bind speaks_get
    intro w
    apply speaks_bind (speaks_lift _)
    intro content
    exact speaks_bind ih fun _ => speaks_pure _

theorem speaks_loadAll (under : Table) (files : List Place) :
    Speaks (loadAll under files : Action σ LoadError _) := by
  induction files generalizing under with
  | nil => exact speaks_pure _
  | cons file rest ih =>
    apply speaks_bind (speaks_loadFile file)
    intro table
    exact ih _

theorem speaks_load (userFile cwd : Place) : Speaks (load userFile cwd : Action σ LoadError _) := by
  apply speaks_bind (speaks_presentFiles _)
  intro present
  apply speaks_bind (speaks_loadAll _ _)
  intro table
  cases Settings.ofValue (.table table) with
  | ok settings => exact speaks_pure _
  | error issue => exact speaks_throw _

end Settings

namespace Shell

open World
open Text (newline)

variable {σ : Type}

theorem speaks_greet (settings : Settings) : Speaks (greet settings : Action σ Fault Unit) := by
  unfold greet
  cases KeyChord.ofText? settings.toggleMode with
  | some chord => exact speaks_say _ _
  | none => exact speaks_bind (speaks_say _ _) fun _ => speaks_say _ _

theorem greet_of_hasRoom (settings : Settings) {w : World σ} {room : Bool}
    (h : Screen.hasRoom w.environment w.console.terminal = .ok room) :
    ∃ v, greet settings w = .ok () v := by
  unfold greet
  cases KeyChord.ofText? settings.toggleMode with
  | some chord =>
    obtain ⟨console, hsaid, -⟩ := say_of_hasRoom (ε := Fault) h .info _
    exact ⟨_, hsaid⟩
  | none =>
    obtain ⟨console, hwarned, hterminal⟩ := say_of_hasRoom (ε := Fault) h .warning _
    have hroom : Screen.hasRoom w.environment console.terminal = .ok room := by rwa [hterminal]
    obtain ⟨_, hsaid, -⟩ :=
      say_of_hasRoom (ε := Fault) (w := { w with console }) hroom .info (advice ++ farewellAdvice)
    exact ⟨_, (bind_ok hwarned _).trans hsaid⟩

def carriageReturn : Glyph := .char '\r'

/-- What ends a line before `rest`: a line feed, a carriage return, or the two together. -/
inductive IsEnding : (ending rest : Text) → Prop where
  | lineFeed {rest : Text} : IsEnding [newline] rest
  | both {rest : Text} : IsEnding [carriageReturn, newline] rest
  | carriageReturn {rest : Text} (h : rest.head? ≠ some newline) :
      IsEnding [carriageReturn] rest

/-- A text and its lines. The last one may lack an ending, unless it is empty. -/
inductive Broken : Text → List Text → Prop where
  | done : Broken [] []
  | last {line : Text} (hne : line ≠ []) (hfeed : newline ∉ line)
      (hreturn : carriageReturn ∉ line) : Broken line [line]
  | ended {line ending rest : Text} {lines : List Text} (hfeed : newline ∉ line)
      (hreturn : carriageReturn ∉ line) (hending : IsEnding ending rest)
      (hrest : Broken rest lines) : Broken (line ++ (ending ++ rest)) (line :: lines)

theorem Broken.cons {g : Glyph} {content : Text} {lines : List Text} (hfeed : g ≠ newline)
    (hreturn : g ≠ carriageReturn) (h : Broken content lines) :
    ∃ lines, Broken (g :: content) lines := by
  have hnew {line : Text} (hline : newline ∉ line) : newline ∉ g :: line := by
    simp [hfeed.symm, hline]
  have hcr {line : Text} (hline : carriageReturn ∉ line) : carriageReturn ∉ g :: line := by
    simp [hreturn.symm, hline]
  cases h with
  | done => exact ⟨_, .last (List.cons_ne_nil g []) (hnew List.not_mem_nil) (hcr List.not_mem_nil)⟩
  | @last line hne hf hr => exact ⟨_, .last (List.cons_ne_nil g _) (hnew hf) (hcr hr)⟩
  | ended hf hr hending hrest => exact ⟨_, .ended (hnew hf) (hcr hr) hending hrest⟩

theorem exists_broken (content : Text) : ∃ lines, Broken content lines := by
  induction content using Text.plainNewlines.induct with
  | case1 => exact ⟨[], .done⟩
  | case2 rest ih =>
    obtain ⟨lines, h⟩ := ih
    exact ⟨[] :: lines, .ended List.not_mem_nil List.not_mem_nil .both h⟩
  | case3 g rest hboth ih =>
    obtain ⟨lines, h⟩ := ih
    by_cases hfeed : g = newline
    · subst hfeed
      exact ⟨[] :: lines, .ended List.not_mem_nil List.not_mem_nil .lineFeed h⟩
    · by_cases hreturn : g = carriageReturn
      · subst hreturn
        refine ⟨[] :: lines, .ended List.not_mem_nil List.not_mem_nil (.carriageReturn ?_) h⟩
        intro hhead
        obtain ⟨rest', rfl⟩ := List.head?_eq_some_iff.mp hhead
        exact hboth rest' rfl rfl
      · exact h.cons hfeed hreturn

theorem plainNewlines_append {line : Text} (hreturn : carriageReturn ∉ line) (rest : Text) :
    Text.plainNewlines (line ++ rest) = line ++ Text.plainNewlines rest := by
  induction line with
  | nil => rfl
  | cons g line ih =>
    rw [List.mem_cons, not_or] at hreturn
    have hg : ¬ g = carriageReturn := fun h => hreturn.1 h.symm
    rw [List.cons_append, Text.plainNewlines]
    · rw [ih hreturn.2, List.cons_append]
      exact congrArg (· :: _) (if_neg hg)
    · rintro _ rfl
      exact absurd rfl hg

theorem plainNewlines_ending {ending rest : Text} (h : IsEnding ending rest) :
    Text.plainNewlines (ending ++ rest) = newline :: Text.plainNewlines rest := by
  cases h with
  | lineFeed => rfl
  | both => rfl
  | carriageReturn h =>
    show Text.plainNewlines (carriageReturn :: rest) = _
    rw [Text.plainNewlines]
    · rfl
    · rintro rest' - rfl
      exact h rfl

theorem linesOf_ended {line ending rest : Text} (hfeed : newline ∉ line)
    (hreturn : carriageReturn ∉ line) (hending : IsEnding ending rest) :
    Input.linesOf (line ++ (ending ++ rest)) = line :: Input.linesOf rest := by
  have hlines : Text.lines (Text.plainNewlines (line ++ (ending ++ rest))) =
      line :: Text.lines (Text.plainNewlines rest) := by
    rw [plainNewlines_append hreturn, plainNewlines_ending hending, Text.lines_append,
      Text.lines_eq_singleton hfeed]
    rfl
  have hne : Text.lines (Text.plainNewlines rest) ≠ [] := Text.splitWhere_ne_nil _ _
  simp only [Input.linesOf, hlines, List.getLast?_cons_of_ne_nil hne,
    List.dropLast_cons_of_ne_nil hne]
  split <;> rfl

theorem Broken.eq_linesOf {content : Text} {lines : List Text} (h : Broken content lines) :
    lines = Input.linesOf content := by
  induction h with
  | done => rfl
  | @last line hne hfeed hreturn =>
    have hplain : Text.plainNewlines line = line := by
      simpa [Text.plainNewlines] using plainNewlines_append hreturn []
    simp [Input.linesOf, hplain, Text.lines_eq_singleton hfeed, hne]
  | ended hfeed hreturn hending _ ih => rw [linesOf_ended hfeed hreturn hending, ih]

theorem broken_linesOf (content : Text) : Broken content (Input.linesOf content) := by
  obtain ⟨lines, h⟩ := exists_broken content
  rwa [← h.eq_linesOf]

variable (runner : Runner σ) (pool : List Text) (cwd : Place)

/-- What executing a line came to: its reply, the requests, and what it wrote. -/
structure Exchange where
  reply : Command.Reply
  requests : List Request
  stdout : Text
  stderr : Text
deriving DecidableEq, Repr

def exchange (reply : Command.Reply) (v w : World σ) : Exchange where
  reply
  requests := w.requests.drop v.requests.length
  stdout := w.console.stdout.drop v.console.stdout.length
  stderr := w.console.stderr.drop v.console.stderr.length

def executeAll : List Text → Action σ Fault (List Exchange)
  | [] => pure []
  | line :: rest => do
    let before ← get
    let reply ← execute runner pool line cwd
    let after ← get
    let others ← executeAll rest
    pure (exchange reply before after :: others)

def commandLines (content : Text) : List Text :=
  (Input.linesOf content).filter fun line => !isIdle line

/-- What a session writes to standard output after its greeting: a prompt for each line and for the
end, and after the prompt what the line wrote, if it was executed. -/
def transcript (prompt : Text) : List Text → List Exchange → Text
  | [], _ => prompt
  | line :: lines, exchanges =>
    if isIdle line then prompt ++ transcript prompt lines exchanges
    else
      match exchanges with
      | [] => prompt
      | e :: rest => prompt ++ (e.stdout ++ transcript prompt lines rest)

variable {prompt line : Text} {lines : List Text}

theorem transcript_idle (h : isIdle line = true) (exchanges : List Exchange) :
    transcript prompt (line :: lines) exchanges = prompt ++ transcript prompt lines exchanges := by
  simp [transcript, h]

theorem transcript_cons (h : isIdle line = false) (e : Exchange) (rest : List Exchange) :
    transcript prompt (line :: lines) (e :: rest) =
      prompt ++ (e.stdout ++ transcript prompt lines rest) := by
  simp [transcript, h]

theorem exchange_eq {reply : Command.Reply} {v w : World σ} {out err : Text}
    {made : List Request} (h : Grew v w out err made) :
    exchange reply v w = ⟨reply, made, out, err⟩ := by
  simp [exchange, h.requests, h.console.stdout, h.console.stderr]

variable {runner pool cwd} {u v w x : World σ}

theorem respects_execute {R : World σ → World σ → Prop} (h : Steady R runner)
    (hsay : ∀ level message, Respects R (say level message : Action σ Fault Unit)) (line : Text) :
    Respects R (execute runner pool line cwd) := by
  apply respects_bind
  · unfold answer
    split
    · exact Command.respects_perform h pool _ _ cwd
    · exact respects_pure _
  · intro reply
    exact respects_bind (hsay _ _) fun _ => respects_pure reply

theorem execute_of_akin (h : Akin v w) {line : Text} {reply : Command.Reply}
    (hw : execute runner pool line cwd w = .ok reply u) :
    ∃ x out err made, execute runner pool line cwd v = .ok reply x ∧ Akin x u ∧
      Grew v x out err made ∧ Grew w u out err made := by
  have hrespects : Respects (InStep v w) (execute runner pool line cwd) :=
    respects_execute (steady_inStep v w runner) (respects_say v w) line
  have hboth := hrespects v w h.inStep
  rw [hw] at hboth
  rcases hboth.cases with ⟨_, x, _, hx, heq, hstep⟩ | ⟨_, _, _, -, heq, -⟩
  · obtain ⟨rfl, rfl⟩ := EStateM.Result.ok.inj heq
    obtain ⟨hakin, out, err, made, hv, hu⟩ := hstep
    exact ⟨x, out, err, made, hx, hakin, hv, hu⟩
  · exact absurd heq (by simp)

theorem executeAll_cons {line : Text} {lines : List Text} {exchanges : List Exchange}
    (h : executeAll runner pool cwd (line :: lines) w = .ok exchanges u) :
    ∃ reply v others, execute runner pool line cwd w = .ok reply v ∧
      executeAll runner pool cwd lines v = .ok others u ∧
      exchanges = exchange reply w v :: others := by
  rw [executeAll, bind_ok (Workspace.run_get w)] at h
  cases hline : execute runner pool line cwd w with
  | error f v => simp [bind_error hline] at h
  | ok reply v =>
    rw [bind_ok hline, bind_ok (Workspace.run_get v)] at h
    cases hrest : executeAll runner pool cwd lines v with
    | error f x => simp [bind_error hrest] at h
    | ok others x =>
      rw [bind_ok hrest] at h
      obtain ⟨rfl, rfl⟩ := EStateM.Result.ok.inj h
      exact ⟨reply, v, others, rfl, hrest, rfl⟩

/-- The world after a session `x`, seen from `v` where it began to read, against the world `u` after
the lines alone. -/
structure Followed (prompt : Text) (lines : List Text) (exchanges : List Exchange)
    (v u x : World σ) : Prop where
  git : x.git = u.git
  files : x.files = u.files
  requests : x.requests = u.requests
  stdout : x.console.stdout = v.console.stdout ++ transcript prompt lines exchanges
  stderr : x.console.stderr = v.console.stderr ++ exchanges.flatMap (·.stderr)

def prompted (prompt : Text) (w : World σ) : World σ :=
  { w with console := w.console.writeStdout prompt }

theorem akin_prompted (prompt : Text) (w : World σ) : Akin (prompted prompt w) w :=
  ⟨rfl, rfl, rfl, rfl, rfl, rfl, rfl, rfl, fun _ _ _ => rfl⟩

theorem serve_cons (v : World σ) (rest : List (Option Text))
    (h : obey runner pool cwd line (prompted prompt v) = .ok () x) :
    serve runner pool cwd prompt (some line :: rest) v = serve runner pool cwd prompt rest x := by
  have hwrite : (World.write prompt : Action σ Fault Unit) v = .ok () (prompted prompt v) := rfl
  rw [serve, bind_ok hwrite, bind_ok h]

theorem obey_idle (h : isIdle line = true) (w : World σ) :
    obey runner pool cwd line w = .ok () w := by
  rw [obey, if_pos h]
  rfl

theorem obey_execute (h : isIdle line = false) {reply : Command.Reply}
    (hline : execute runner pool line cwd w = .ok reply x) :
    obey runner pool cwd line w = .ok () x := by
  rw [obey, if_neg (by simp [h]), bind_ok hline]
  rfl

/-- A session goes in step with its lines, from any two akin worlds on. -/
theorem serve_followed {exchanges : List Exchange} (h : Akin v w)
    (hrequests : v.requests = w.requests)
    (hrun : executeAll runner pool cwd (lines.filter fun line => !isIdle line) w =
      .ok exchanges u) :
    ∃ x, serve runner pool cwd prompt (lines.map some) v = .ok () x ∧
      Followed prompt lines exchanges v u x := by
  induction lines generalizing v w exchanges with
  | nil =>
    obtain ⟨rfl, rfl⟩ := EStateM.Result.ok.inj hrun
    exact ⟨prompted prompt v, rfl, h.git, h.files, hrequests, rfl, (List.append_nil _).symm⟩
  | cons line lines ih =>
    have hprompted := (akin_prompted prompt v).trans h
    cases hidle : isIdle line with
    | true =>
      rw [List.filter_cons_of_neg (by simp [hidle])] at hrun
      obtain ⟨x, hx, hfollowed⟩ := ih hprompted hrequests hrun
      refine ⟨x, ?_, hfollowed.git, hfollowed.files, hfollowed.requests, ?_, hfollowed.stderr⟩
      · rw [← hx]
        exact serve_cons v _ (obey_idle hidle _)
      · rw [hfollowed.stdout, transcript_idle hidle]
        exact List.append_assoc _ _ _
    | false =>
      rw [List.filter_cons_of_pos (by simp [hidle])] at hrun
      obtain ⟨reply, w', others, hline, hothers, rfl⟩ := executeAll_cons hrun
      obtain ⟨v', out, err, made, hv', hakin, hgrew, hgrew'⟩ := execute_of_akin hprompted hline
      have hrequests' : v'.requests = w'.requests := by
        rw [hgrew.requests, hgrew'.requests]
        exact congrArg (· ++ made) hrequests
      obtain ⟨x, hx, hfollowed⟩ := ih hakin hrequests' hothers
      rw [exchange_eq hgrew']
      refine ⟨x, ?_, hfollowed.git, hfollowed.files, hfollowed.requests, ?_, ?_⟩
      · rw [← hx]
        exact serve_cons v _ (obey_execute hidle hv')
      · rw [hfollowed.stdout, hgrew.console.stdout, transcript_cons hidle]
        simp [prompted, Console.writeStdout]
      · rw [hfollowed.stderr, hgrew.console.stderr, List.flatMap_cons, ← List.append_assoc]
        rfl

end Shell

namespace CommandLine

open World
open Shell
open Command (bareWorld leftoverOtter)

variable {σ : Type} {runner : Runner σ} {pool : List Text} {cwd : Place} {content : Text}
  {settings : Settings} {exchanges : List Exchange} {u v w greeted : World σ}

/-- A session over a text is its greeting and its lines, and it ends with code zero. -/
theorem session_follows_lines
    (hload : Settings.load (Settings.userFile w.environment) cwd w = .ok settings v)
    (hgreet : greet settings v = .ok () greeted)
    (hrun : executeAll runner pool cwd (commandLines content) w = .ok exchanges u) :
    Broken content (Input.linesOf content) ∧ Spoke w greeted ∧
      ∃ x, performTask runner pool (.ofText content) cwd .shell w = .ok 0 x ∧
        Followed (Input.ofText content).prompt (Input.linesOf content) exchanges greeted u x := by
  have hloaded := Settings.speaks_load (Settings.userFile w.environment) cwd w
  rw [worldAfter_of_ok hload] at hloaded
  have hspoken := speaks_greet settings v
  rw [worldAfter_of_ok hgreet] at hspoken
  have hspoke := hloaded.trans hspoken
  obtain ⟨x, hx, hfollowed⟩ := serve_followed hspoke.akin hspoke.requests_eq hrun
  have hsession : Shell.session runner pool settings (.ofText content) cwd v = .ok () x := by
    rw [Shell.session, bind_ok hgreet]
    exact hx
  refine ⟨broken_linesOf content, hspoke, x, ?_, hfollowed⟩
  rw [performTask, withSettings, hload]
  exact bind_ok hsession _

/-- Lines with endings of all kinds, some of them idle, and commands that fail. -/
def mixedLines : Text := ":list\r\n\n  :create otter\rbogus\n:\n:create lynx"

theorem session_follows_mixedLines : ∃ settings v greeted exchanges u,
    Settings.load (Settings.userFile bareWorld.environment) .here bareWorld = .ok settings v ∧
      greet settings v = .ok () greeted ∧
      executeAll leftoverOtter ["lynx"] .here (commandLines mixedLines) bareWorld =
        .ok exchanges u ∧
      Broken mixedLines (Input.linesOf mixedLines) ∧ Spoke bareWorld greeted ∧
      ∃ x, performTask leftoverOtter ["lynx"] (.ofText mixedLines) .here .shell bareWorld =
          .ok 0 x ∧
        Followed (Input.ofText mixedLines).prompt (Input.linesOf mixedLines) exchanges greeted u
          x := by
  obtain ⟨settings, v, hload⟩ : ∃ settings v,
      Settings.load (Settings.userFile bareWorld.environment) .here bareWorld = .ok settings v :=
    exists_ok_of_isOk (by decide +kernel)
  obtain ⟨exchanges, u, hrun⟩ : ∃ exchanges u,
      executeAll leftoverOtter ["lynx"] .here (commandLines mixedLines) bareWorld =
        .ok exchanges u :=
    exists_ok_of_isOk (by decide +kernel)
  have hloaded := Settings.speaks_load (Settings.userFile bareWorld.environment) .here bareWorld
  rw [worldAfter_of_ok hload] at hloaded
  have hroom : Screen.hasRoom v.environment v.console.terminal = .ok true := by
    rw [hloaded.akin.environment, hloaded.akin.console.terminal]
    decide +kernel
  obtain ⟨greeted, hgreet⟩ := greet_of_hasRoom settings hroom
  exact ⟨settings, v, greeted, exchanges, u, hload, hgreet, hrun,
    session_follows_lines hload hgreet hrun⟩

/-- A screen whose width is `²`: a digit, and no numeral. -/
def squaredColumns : World Unit := { bareWorld with environment := [("COLUMNS", "²")] }

/-- The greeting stops a session that has settings and nothing to execute. -/
theorem unreadable_columns_stop_session :
    (∃ settings v, Settings.load (Settings.userFile squaredColumns.environment) .here
        squaredColumns = .ok settings v) ∧
      executeAll leftoverOtter ["lynx"] .here (commandLines "\n:\n") squaredColumns =
        .ok [] squaredColumns ∧
      resultOf (performTask leftoverOtter ["lynx"] (.ofText "\n:\n") .here .shell)
        squaredColumns = .error (.notNumeral "²") := by
  refine ⟨exists_ok_of_isOk (by decide +kernel), rfl, ?_⟩
  decide +kernel

end CommandLine

end Paddock
