import Paddock.Proofs.Logging

/-!
# Requests and their answers

A runner answers a request from what the requests before it left. In a silent world a request
changes what the runner remembers and the list of requests, and nothing else. Every command is
blind to logging, so `perform` does in any world what it does in the silent one, unless debug
messages cannot be logged: then nothing is asked at all.
-/

namespace Paddock

set_option autoImplicit false

namespace Runner

variable {σ : Type} (runner : Runner σ)

/-- What the runner remembers after a list of requests. -/
def after (g : σ) (requests : List Request) : σ :=
  requests.foldl (fun g request => (runner request g).2) g

def answer (g : σ) (before : List Request) (request : Request) : Outcome :=
  (runner request (runner.after g before)).1

@[simp] theorem after_nil (g : σ) : runner.after g [] = g := rfl

theorem after_append (g : σ) (xs ys : List Request) :
    runner.after g (xs ++ ys) = runner.after (runner.after g xs) ys := List.foldl_append

end Runner

namespace World

variable {σ ε α : Type}

def advance (runner : Runner σ) (requests : List Request) (w : World σ) : World σ :=
  { w with git := runner.after w.git requests, requests := w.requests ++ requests }

@[simp] theorem advance_nil (runner : Runner σ) (w : World σ) : w.advance runner [] = w := by
  simp [advance]

@[simp] theorem advance_advance (runner : Runner σ) (xs ys : List Request) (w : World σ) :
    (w.advance runner xs).advance runner ys = w.advance runner (xs ++ ys) := by
  simp [advance, Runner.after_append]

theorem Silent.advance {w : World σ} (h : w.Silent) (runner : Runner σ) (xs : List Request) :
    (w.advance runner xs).Silent := h

def withFiles (files : FileTree) (w : World σ) : World σ := { w with files }

@[simp] theorem advance_withFiles (runner : Runner σ) (xs : List Request) (files : FileTree)
    (w : World σ) : (w.withFiles files).advance runner xs = (w.advance runner xs).withFiles files :=
  rfl

theorem Silent.withFiles {w : World σ} (h : w.Silent) (files : FileTree) :
    (w.withFiles files).Silent := h

def resultOf (m : Action σ ε α) (w : World σ) : Except ε α :=
  match m w with
  | .ok a _ => .ok a
  | .error e _ => .error e

/-- The world that an action leaves, also when it ends in an error. -/
def worldAfter (m : Action σ ε α) (w : World σ) : World σ :=
  match m w with
  | .ok _ v => v
  | .error _ v => v

theorem worldAfter_of_ok {m : Action σ ε α} {w v : World σ} {a : α} (h : m w = .ok a v) :
    worldAfter m w = v := by
  rw [worldAfter, h]

theorem worldAfter_of_error {m : Action σ ε α} {w v : World σ} {e : ε} (h : m w = .error e v) :
    worldAfter m w = v := by
  rw [worldAfter, h]

/-- A blind action can be watched in the silent world. -/
theorem Blind.silence {m : Action σ ε α} (hm : Blind m) {w : World σ} (h : w.CanLog) :
    resultOf m w = resultOf m w.silence ∧ (worldAfter m w).Alike (worldAfter m w.silence) := by
  unfold resultOf worldAfter
  rcases (hm w w.silence (alike_silence h)).cases with
    ⟨a, v', w', hv, hw, h'⟩ | ⟨e, v', w', hv, hw, h'⟩
  · rw [hv, hw]
    exact ⟨rfl, h'⟩
  · rw [hv, hw]
    exact ⟨rfl, h'⟩

theorem Blind.canLog {m : Action σ ε α} (hm : Blind m) {w : World σ} (h : w.CanLog) :
    (worldAfter m w).CanLog := (hm.silence h).2.canLog_left

/-- A relation that all commands respect: it fixes what they look at, and what they change keeps
it. -/
structure Steady (R : World σ → World σ → Prop) (runner : Runner σ) : Prop where
  git : ∀ {v w}, R v w → v.git = w.git
  files : ∀ {v w}, R v w → v.files = w.files
  cwd : ∀ {v w}, R v w → v.cwd = w.cwd
  room : ∀ {v w}, R v w → v.room = w.room
  advance : ∀ {v w} (request : Request), R v w →
    R (v.advance runner [request]) (w.advance runner [request])
  withFiles : ∀ {v w} (files : FileTree), R v w → R (v.withFiles files) (w.withFiles files)
  say : ∀ {ε : Type} [HasFaults ε] {level : Level}, level.rank ≤ Level.debug.rank →
    ∀ message, Respects R (say level message : Action σ ε Unit)

theorem steady_alike (runner : Runner σ) : Steady Alike runner where
  git h := h.git
  files h := h.files
  cwd h := h.cwd
  room h := h.room
  advance request h := by
    have hgit : (Runner.after runner _ [request]) = Runner.after runner _ [request] :=
      congrArg (Runner.after runner · [request]) h.git
    exact ⟨hgit, h.files, h.cwd, h.environment, congrArg (· ++ [request]) h.requests, h.room,
      h.canLog_left, h.canLog_right⟩
  withFiles _ h :=
    ⟨h.git, rfl, h.cwd, h.environment, h.requests, h.room, h.canLog_left, h.canLog_right⟩
  say hl message := blind_say hl message

theorem respects_ask {R : World σ → World σ → Prop} {runner : Runner σ} (h : Steady R runner)
    (request : Request) : Respects R (ask runner request : Action σ ε Outcome) := by
  intro v w hvw
  have houtcome : (runner request v.git).1 = (runner request w.git).1 := by rw [h.git hvw]
  exact ⟨houtcome, h.advance request hvw⟩

theorem eq_ok_of_resultOf {m : Action σ ε α} {w : World σ} {a : α} (h : resultOf m w = .ok a) :
    m w = .ok a (worldAfter m w) := by
  unfold resultOf at h
  unfold worldAfter
  cases hm : m w with
  | ok b v =>
    rw [hm] at h
    rw [Except.ok.inj h]
  | error e v => simp [hm] at h

end World

namespace Git

open World

variable {σ ε : Type} [HasFaults ε] (runner : Runner σ) (argv : List Text) (cwd : Place)

section Respects

variable {runner} {R : World σ → World σ → Prop} (h : Steady R runner)
include h

theorem respects_traceOutput (x : Text) : Respects R (traceOutput x : Action σ ε Unit) := by
  unfold traceOutput
  split
  · exact respects_pure ()
  · exact h.say (by decide) _

theorem respects_run : Respects R (run runner argv cwd : Action σ ε Outcome) := by
  apply respects_bind (h.say (by decide) _)
  intro _
  apply respects_bind (respects_ask h _)
  intro outcome
  apply respects_bind (respects_traceOutput h outcome.stdout)
  intro _
  apply respects_bind (respects_traceOutput h outcome.stderr)
  intro _
  split
  · exact respects_pure _
  · exact respects_bind (h.say (by decide) _) fun _ => respects_pure _

end Respects

theorem traceOutput_silent {w : World σ} (h : w.Silent) (x : Text) :
    (traceOutput x : Action σ ε Unit) w = .ok () w := by
  unfold traceOutput
  split
  · rfl
  · exact say_silent h (by decide) _

theorem run_silent {w : World σ} (h : w.Silent) :
    (run runner argv cwd : Action σ ε Outcome) w =
      .ok (runner ⟨argv, cwd⟩ w.git).1 (w.advance runner [⟨argv, cwd⟩]) := by
  have hv : (w.advance runner [⟨argv, cwd⟩]).Silent := h.advance runner _
  have hask : (ask runner ⟨argv, cwd⟩ : Action σ ε Outcome) w =
      .ok (runner ⟨argv, cwd⟩ w.git).1 (w.advance runner [⟨argv, cwd⟩]) := rfl
  unfold run
  rw [bind_ok (say_silent h (by decide) _), bind_ok hask, bind_ok (traceOutput_silent hv _),
    bind_ok (traceOutput_silent hv _)]
  split
  · rfl
  · rw [bind_ok (say_silent hv (by decide) _)]
    rfl

theorem run_of_cannotLog {w : World σ} {f : Fault} (h : w.CannotLog f) :
    (run runner argv cwd : Action σ ε Outcome) w = .error (HasFaults.ofFault f) w :=
  bind_error (say_of_cannotLog h _) _

end Git

namespace Workspace

open World

def rootHalt : Fault → Halt
  | .refused e => .failure (.rootRefused e)
  | f => .fault f

variable {σ : Type}

theorem run_get {ε : Type} (w : World σ) : (get : Action σ ε (World σ)) w = .ok w w := rfl

theorem prepareRoot_ok {w : World σ} {repoRoot : Text} {made : FileTree}
    (h : prepare w.files w.cwd repoRoot w.room.directories = (.ok (), made)) :
    prepareRoot repoRoot w = .ok () (w.withFiles made) := by
  rw [prepareRoot, bind_ok (run_get w), h]
  rfl

theorem prepareRoot_error {w : World σ} {repoRoot : Text} {made : FileTree} {f : Fault}
    (h : prepare w.files w.cwd repoRoot w.room.directories = (.error f, made)) :
    prepareRoot repoRoot w = .error (rootHalt f) (w.withFiles made) := by
  rw [prepareRoot, bind_ok (run_get w), h]
  cases f <;> rfl

theorem respects_prepareRoot {R : World σ → World σ → Prop} {runner : Runner σ}
    (h : Steady R runner) (repoRoot : Text) :
    Respects R (prepareRoot repoRoot : Action σ Halt Unit) := by
  intro v w hvw
  cases hp : prepare w.files w.cwd repoRoot w.room.directories with
  | mk result made =>
    have hv : prepare v.files v.cwd repoRoot v.room.directories = (result, made) := by
      rw [h.files hvw, h.cwd hvw, h.room hvw, hp]
    cases result with
    | ok u =>
      rw [prepareRoot_ok hp, prepareRoot_ok hv]
      exact ⟨rfl, h.withFiles made hvw⟩
    | error f =>
      rw [prepareRoot_error hp, prepareRoot_error hv]
      exact ⟨rfl, h.withFiles made hvw⟩

end Workspace

namespace Command

open World

variable {σ : Type} (runner : Runner σ)

section Respects

variable {runner} {R : World σ → World σ → Prop}

theorem respects_requireSome {α : Type} (f : Failure) (a : Option α) :
    Respects R (requireSome f a : Action σ Halt α) := by
  cases a with
  | none => exact respects_throw _
  | some a => exact respects_pure a

theorem respects_requireValid (name : Text) :
    Respects R (requireValid name : Action σ Halt Unit) :=
  respects_ite (respects_pure ()) (respects_throw _)

variable (h : Steady R runner)
include h

theorem respects_requireRoot (cwd : Place) : Respects R (requireRoot runner cwd) := by
  apply respects_bind
  · exact respects_bind (Git.respects_run _ _ h) fun _ => respects_pure _
  · intro repoRoot
    exact respects_requireSome .notInRepository repoRoot

theorem respects_worktrees (repoRoot : Text) :
    Respects R (Git.worktrees runner repoRoot : Action σ Halt (List Worktree)) :=
  respects_bind (Git.respects_run _ _ h) fun _ => respects_pure _

theorem respects_branchExists (repoRoot name : Text) :
    Respects R (Git.branchExists runner repoRoot name : Action σ Halt Bool) :=
  respects_bind (Git.respects_run _ _ h) fun _ => respects_pure _

theorem respects_requireFree (repoRoot : Text) (used : List Text) (name : Text) :
    Respects R (requireFree runner repoRoot used name) := by
  apply respects_bind (respects_requireValid name)
  intro _
  apply respects_guard (respects_throw _)
  intro _
  apply respects_bind (respects_branchExists h repoRoot name)
  intro taken
  exact respects_ite (respects_throw _) (respects_pure _)

theorem respects_add (repoRoot name : Text) : Respects R (add runner repoRoot name) := by
  apply respects_bind (respects_requireSome _ _)
  intro path
  apply respects_bind (respects_requireSome _ _)
  intro argv
  apply respects_bind (h.say (by decide) _)
  intro _
  apply respects_bind (Git.respects_run argv _ h)
  intro outcome
  exact respects_ite (respects_pure _) (respects_throw _)

theorem respects_create (pool args : List Text) (cwd : Place) :
    Respects R (create runner pool args cwd) := by
  apply respects_bind (respects_requireRoot h cwd)
  intro repoRoot
  apply respects_bind (Workspace.respects_prepareRoot h repoRoot)
  intro _
  apply respects_bind (respects_worktrees h repoRoot)
  intro worktrees
  apply respects_bind (respects_requireSome _ _)
  intro name
  apply respects_bind (respects_requireFree h repoRoot _ name)
  intro _
  exact respects_add h repoRoot name

theorem respects_destroy (args : List Text) (cwd : Place) :
    Respects R (destroy runner args cwd) := by
  apply respects_bind (respects_requireSome _ _)
  intro name
  apply respects_bind (respects_requireValid name)
  intro _
  apply respects_bind (respects_requireRoot h cwd)
  intro repoRoot
  apply respects_bind (respects_requireSome _ _)
  intro path
  apply respects_bind (respects_requireSome _ _)
  intro argv
  apply respects_bind (Git.respects_run argv _ h)
  intro outcome
  exact respects_ite (respects_pure _) (respects_throw _)

theorem respects_list (cwd : Place) : Respects R (list runner cwd) := by
  apply respects_bind (respects_requireRoot h cwd)
  intro repoRoot
  exact respects_bind (respects_worktrees h repoRoot) fun _ => respects_pure _

theorem respects_act (pool args : List Text) (cwd : Place) (verb : Verb) :
    Respects R (act runner pool args cwd verb) := by
  cases verb with
  | help => exact respects_pure _
  | create => exact respects_create h pool args cwd
  | destroy => exact respects_destroy h args cwd
  | list => exact respects_list h cwd
  | pending notice => exact respects_pure _

theorem respects_settle (name : Text) {action : Action σ Halt Reply} (ha : Respects R action) :
    Respects R (settle name action) := by
  intro v w hvw
  rcases (ha v w hvw).cases with ⟨a, v', w', hv, hw, h'⟩ | ⟨e, v', w', hv, hw, h'⟩
  · simp only [settle, hv, hw]
    exact ⟨rfl, h'⟩
  · cases e with
    | failure f =>
      have hreply : Respects R (replyTo name f : Action σ Fault Reply) :=
        respects_bind (h.say (by decide) _) fun _ => respects_pure _
      simpa only [settle, hv, hw] using hreply v' w' h'
    | fault f =>
      simp only [settle, hv, hw]
      exact ⟨rfl, h'⟩

theorem respects_perform (pool : List Text) (name : Text) (args : List Text) (cwd : Place) :
    Respects R (perform runner pool name args cwd) := by
  unfold perform
  split
  · exact respects_settle h name (respects_act h pool args cwd _)
  · exact respects_pure _

end Respects

theorem blind_act (pool args : List Text) (cwd : Place) (verb : Verb) :
    Blind (act runner pool args cwd verb) :=
  respects_act (steady_alike runner) pool args cwd verb

theorem blind_perform (pool : List Text) (name : Text) (args : List Text) (cwd : Place) :
    Blind (perform runner pool name args cwd) :=
  respects_perform (steady_alike runner) pool name args cwd

end Command

end Paddock
