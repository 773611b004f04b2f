import Paddock.Proofs.Creation

/-!
# What commands reply

The other commands in a silent world, and what is made of a command's result: a failure becomes a
reply that is not ok, a fault stays one. What holds of a silent world is carried over to every world
in which debug messages can be logged; in all others nothing is asked and nothing is changed.
-/

namespace Paddock

set_option autoImplicit false

open World

/-- What the caller sees of a command that is stopped. -/
def Halt.reply : Halt → Except Fault Command.Reply
  | .failure f => .ok ⟨false, f.message⟩
  | .fault f => .error f

namespace Command

variable {σ : Type} {runner : Runner σ} {pool args : List Text} {cwd : Place} {w : World σ}

def removalAnswer (runner : Runner σ) (cwd : Place) (w : World σ) (repoRoot name : Text) :
    Outcome :=
  runner.answer w.git [.toplevel cwd] (.removal repoRoot name)

section Silent

variable (hs : w.Silent)
include hs

theorem destroy_of_resolves {name repoRoot : Text} {rest : List Text}
    (hvalid : Workspace.isValidName name = true)
    (h : Git.Resolves (runner.answer w.git [] (.toplevel cwd)) repoRoot) :
    destroy runner (name :: rest) cwd w =
      if (removalAnswer runner cwd w repoRoot name).ok = true then
        .ok ⟨true, Failure.withDetails
            (removedMessage name (Text.ofString "workspaces/" ++ name))
            (removalAnswer runner cwd w repoRoot name).details⟩
          (w.advance runner [.toplevel cwd, .removal repoRoot name])
      else
        .error (.failure (.removeFailed name (removalAnswer runner cwd w repoRoot name).details))
          (w.advance runner [.toplevel cwd, .removal repoRoot name]) := by
  have hv : (w.advance runner [.toplevel cwd]).Silent := hs
  have hpath := Workspace.relativePath?_of_isValidName hvalid
  have hargv := Git.removeWorktree?_of_isValidName hvalid
  rw [destroy, bind_ok (requireSome_of_eq w List.head?_cons _),
    bind_ok (requireValid_ok w hvalid), bind_ok (requireRoot_ok hs h),
    bind_ok (requireSome_of_eq _ hpath _), bind_ok (requireSome_of_eq _ hargv _),
    bind_ok (Git.run_silent runner _ _ hv), advance_advance]
  split
  · exact (if_pos ‹_›).symm
  · exact (if_neg ‹_›).symm

theorem destroy_of_not_resolves {name : Text} {rest : List Text}
    (hvalid : Workspace.isValidName name = true)
    (h : ∀ repoRoot, ¬ Git.Resolves (runner.answer w.git [] (.toplevel cwd)) repoRoot) :
    destroy runner (name :: rest) cwd w =
      .error (.failure .notInRepository) (w.advance runner [.toplevel cwd]) := by
  rw [destroy, bind_ok (requireSome_of_eq w List.head?_cons _),
    bind_ok (requireValid_ok w hvalid), bind_error (requireRoot_error hs h)]

theorem list_of_resolves {repoRoot : Text}
    (h : Git.Resolves (runner.answer w.git [] (.toplevel cwd)) repoRoot) :
    list runner cwd w =
      .ok ⟨true, listing (Worktree.listedNames (Worktree.ofPorcelain
          (Git.listed (runner.answer w.git [.toplevel cwd] (.listing repoRoot)))) repoRoot)⟩
        (w.advance runner [.toplevel cwd, .listing repoRoot]) := by
  have hv : (w.advance runner [.toplevel cwd]).Silent := hs
  rw [list, bind_ok (requireRoot_ok hs h), bind_ok (worktrees_silent hv repoRoot), advance_advance]
  rfl

theorem list_of_not_resolves
    (h : ∀ repoRoot, ¬ Git.Resolves (runner.answer w.git [] (.toplevel cwd)) repoRoot) :
    list runner cwd w =
      .error (.failure .notInRepository) (w.advance runner [.toplevel cwd]) := by
  rw [list, bind_error (requireRoot_error hs h)]

end Silent

theorem destroy_of_invalid {name : Text} {rest : List Text}
    (h : Workspace.isValidName name = false) :
    destroy runner (name :: rest) cwd w = .error (.failure .nameInvalid) w := by
  rw [destroy, bind_ok (requireSome_of_eq w List.head?_cons _),
    bind_error (requireValid_error w h)]

theorem destroy_nil : destroy runner [] cwd w = .error (.failure .nameMissing) w := rfl

theorem settle_ok {name : Text} {action : Action σ Halt Reply} {reply : Reply} {v : World σ}
    (h : action w = .ok reply v) : settle name action w = .ok reply v := by
  simp only [settle, h]

theorem settle_error {name : Text} {action : Action σ Halt Reply} {halt : Halt} {v : World σ}
    (hv : v.Silent) (h : action w = .error halt v) :
    resultOf (settle name action) w = halt.reply ∧ worldAfter (settle name action) w = v := by
  cases halt with
  | fault f =>
    have hset : settle name action w = .error f v := by simp only [settle, h]
    simp only [resultOf, worldAfter, hset, Halt.reply, and_self]
  | failure f =>
    have hset : settle name action w = .ok ⟨false, f.message⟩ v := by
      simp only [settle, h, replyTo]
      exact bind_ok (say_silent hv (by decide) _) _
    simp only [resultOf, worldAfter, hset, Halt.reply, and_self]

/-- What a command came to in a world: the result, the requests made, and the files left. -/
structure CameTo (m : Action σ Fault Reply) (runner : Runner σ) (w : World σ)
    (result : Except Fault Reply) (made : List Request) (left : FileTree) : Prop where
  result_eq : resultOf m w = result
  requests_eq : (worldAfter m w).requests = w.requests ++ made
  git_eq : (worldAfter m w).git = runner.after w.git made
  files_eq : (worldAfter m w).files = left
  cwd_eq : (worldAfter m w).cwd = w.cwd
  room_eq : (worldAfter m w).room = w.room

variable {made : List Request} {left : FileTree}

theorem CameTo.of_silence {m : Action σ Fault Reply} {result : Except Fault Reply} (hm : Blind m)
    (hlog : w.CanLog) (h : CameTo m runner w.silence result made left) :
    CameTo m runner w result made left := by
  obtain ⟨hr, ha⟩ := hm.silence hlog
  exact ⟨hr.trans h.result_eq, ha.requests.trans h.requests_eq, ha.git.trans h.git_eq,
    ha.files.trans h.files_eq, ha.cwd.trans h.cwd_eq, ha.room.trans h.room_eq⟩

theorem cameTo_of_ok {m : Action σ Fault Reply} {reply : Reply}
    (h : m w = .ok reply ((w.advance runner made).withFiles left)) :
    CameTo m runner w (.ok reply) made left := by
  constructor <;> simp only [resultOf, worldAfter, h] <;> rfl

theorem cameTo_of_error {name : Text} {action : Action σ Halt Reply} {halt : Halt} (hs : w.Silent)
    (h : action w = .error halt ((w.advance runner made).withFiles left)) :
    CameTo (settle name action) runner w halt.reply made left := by
  have hv : ((w.advance runner made).withFiles left).Silent := hs
  have hset : resultOf (settle name action) w = halt.reply ∧
      worldAfter (settle name action) w = (w.advance runner made).withFiles left :=
    settle_error hv h
  obtain ⟨hr, hw⟩ := hset
  constructor <;> simp only [hr, hw] <;> rfl

section Transfer

theorem Ready.silence {repoRoot : Text} (h : Ready runner cwd w repoRoot) :
    Ready runner cwd w.silence repoRoot := ⟨h.resolves, h.writable⟩

theorem Clear.silence {repoRoot name : Text} (h : Clear runner pool args cwd w repoRoot name) :
    Clear runner pool args cwd w.silence repoRoot name :=
  ⟨h.toReady.silence, h.chosen, h.valid, h.free, h.unbranched⟩

theorem Bar.silence {halt : Halt} (h : Bar runner pool args cwd w halt made) :
    Bar runner pool args cwd w.silence halt made := by
  cases h with
  | noRepository h => exact .noRepository h
  | unwritable hroot h => exact .unwritable hroot h
  | unnamed hready h => exact .unnamed hready.silence h
  | invalid hready hname h => exact .invalid hready.silence hname h
  | inUse hready hname hvalid h => exact .inUse hready.silence hname hvalid h
  | branched hready hname hvalid hfree h => exact .branched hready.silence hname hvalid hfree h

end Transfer

def creationReply (name : Text) (o : Outcome) : Reply :=
  if o.ok then
    ⟨true, Failure.withDetails (createdMessage name (Text.ofString "workspaces/" ++ name))
      o.details⟩
  else ⟨false, (Failure.addFailed name o.details).message⟩

def removalReply (name : Text) (o : Outcome) : Reply :=
  if o.ok then
    ⟨true, Failure.withDetails (removedMessage name (Text.ofString "workspaces/" ++ name))
      o.details⟩
  else ⟨false, (Failure.removeFailed name o.details).message⟩

@[simp] theorem creationReply_ok (name : Text) (o : Outcome) :
    (creationReply name o).ok = o.ok := by
  unfold creationReply
  split
  · exact ‹o.ok = true›.symm
  · exact (Bool.not_eq_true _ ▸ ‹¬ o.ok = true›).symm

@[simp] theorem removalReply_ok (name : Text) (o : Outcome) :
    (removalReply name o).ok = o.ok := by
  unfold removalReply
  split
  · exact ‹o.ok = true›.symm
  · exact (Bool.not_eq_true _ ▸ ‹¬ o.ok = true›).symm

theorem perform_of_verb {name : Text} {verb : Verb} (h : Verb.ofName? name = some verb) :
    perform runner pool name args cwd = settle name (act runner pool args cwd verb) := by
  rw [perform, h]

theorem perform_create : perform runner pool "create" args cwd =
    settle "create" (create runner pool args cwd) :=
  @perform_of_verb σ runner pool args cwd "create" .create (by decide)

theorem perform_destroy : perform runner pool "destroy" args cwd =
    settle "destroy" (destroy runner args cwd) :=
  @perform_of_verb σ runner pool args cwd "destroy" .destroy (by decide)

theorem perform_list : perform runner pool "list" args cwd =
    settle "list" (list runner cwd) :=
  @perform_of_verb σ runner pool args cwd "list" .list (by decide)

section Perform

variable (hlog : w.CanLog)
include hlog

theorem create_cameTo_of_clear {repoRoot name : Text}
    (h : Clear runner pool args cwd w repoRoot name) :
    CameTo (perform runner pool "create" args cwd) runner w
      (.ok (creationReply name (additionAnswer runner cwd w repoRoot name)))
      (creation cwd repoRoot name) (filesAfter runner cwd w) := by
  apply CameTo.of_silence (blind_perform runner pool _ args cwd) hlog
  have hrun := create_of_clear (silent_silence w) h.silence
  rw [perform_create, creationReply]
  cases hok : (additionAnswer runner cwd w repoRoot name).ok with
  | true => exact cameTo_of_ok (settle_ok (hrun.trans (if_pos hok)))
  | false =>
    have hno : ¬ (additionAnswer runner cwd w repoRoot name).ok = true := by simp [hok]
    exact cameTo_of_error (silent_silence w) (hrun.trans (if_neg hno))

theorem create_cameTo_of_bar {halt : Halt} (h : Bar runner pool args cwd w halt made) :
    CameTo (perform runner pool "create" args cwd) runner w halt.reply made
      (filesAfter runner cwd w) := by
  apply CameTo.of_silence (blind_perform runner pool _ args cwd) hlog
  rw [perform_create]
  exact cameTo_of_error (silent_silence w) (create_of_bar (silent_silence w) h.silence)

theorem destroy_cameTo_of_resolves {name repoRoot : Text} {rest : List Text}
    (hvalid : Workspace.isValidName name = true)
    (h : Git.Resolves (runner.answer w.git [] (.toplevel cwd)) repoRoot) :
    CameTo (perform runner pool "destroy" (name :: rest) cwd) runner w
      (.ok (removalReply name (removalAnswer runner cwd w repoRoot name)))
      [.toplevel cwd, .removal repoRoot name] w.files := by
  apply CameTo.of_silence (blind_perform runner pool _ (name :: rest) cwd) hlog
  have hrun := @destroy_of_resolves σ runner cwd w.silence (silent_silence w) name repoRoot rest
    hvalid h
  rw [perform_destroy, removalReply]
  cases hok : (removalAnswer runner cwd w repoRoot name).ok with
  | true => exact cameTo_of_ok (settle_ok (hrun.trans (if_pos hok)))
  | false =>
    have hno : ¬ (removalAnswer runner cwd w repoRoot name).ok = true := by simp [hok]
    have hstop : destroy runner (name :: rest) cwd w.silence =
        .error (.failure (.removeFailed name (removalAnswer runner cwd w repoRoot name).details))
          ((w.silence.advance runner [.toplevel cwd, .removal repoRoot name]).withFiles w.files) :=
      hrun.trans (if_neg hno)
    exact cameTo_of_error (silent_silence w) hstop

theorem destroy_cameTo_of_not_resolves {name : Text} {rest : List Text}
    (hvalid : Workspace.isValidName name = true)
    (h : ∀ repoRoot, ¬ Git.Resolves (runner.answer w.git [] (.toplevel cwd)) repoRoot) :
    CameTo (perform runner pool "destroy" (name :: rest) cwd) runner w
      (Halt.failure .notInRepository).reply [.toplevel cwd] w.files := by
  apply CameTo.of_silence (blind_perform runner pool _ (name :: rest) cwd) hlog
  rw [perform_destroy]
  exact cameTo_of_error (silent_silence w) (destroy_of_not_resolves (silent_silence w) hvalid h)

/-- A name that is missing or not valid is refused before git is asked. -/
theorem destroy_cameTo_of_nil : CameTo (perform runner pool "destroy" [] cwd) runner w
    (Halt.failure .nameMissing).reply [] w.files := by
  apply CameTo.of_silence (blind_perform runner pool _ [] cwd) hlog
  have hrun : destroy runner [] cwd w.silence = .error (.failure .nameMissing)
      ((w.silence.advance runner []).withFiles w.files) := by
    rw [advance_nil]
    exact destroy_nil
  rw [perform_destroy]
  exact cameTo_of_error (silent_silence w) hrun

theorem destroy_cameTo_of_invalid {name : Text} {rest : List Text}
    (h : Workspace.isValidName name = false) :
    CameTo (perform runner pool "destroy" (name :: rest) cwd) runner w
      (Halt.failure .nameInvalid).reply [] w.files := by
  apply CameTo.of_silence (blind_perform runner pool _ (name :: rest) cwd) hlog
  have hrun : destroy runner (name :: rest) cwd w.silence = .error (.failure .nameInvalid)
      ((w.silence.advance runner []).withFiles w.files) := by
    rw [advance_nil]
    exact destroy_of_invalid h
  rw [perform_destroy]
  exact cameTo_of_error (silent_silence w) hrun

theorem list_cameTo_of_resolves {repoRoot : Text}
    (h : Git.Resolves (runner.answer w.git [] (.toplevel cwd)) repoRoot) :
    CameTo (perform runner pool "list" args cwd) runner w
      (.ok ⟨true, listing (Worktree.listedNames (Worktree.ofPorcelain
        (Git.listed (runner.answer w.git [.toplevel cwd] (.listing repoRoot)))) repoRoot)⟩)
      [.toplevel cwd, .listing repoRoot] w.files := by
  apply CameTo.of_silence (blind_perform runner pool _ args cwd) hlog
  rw [perform_list]
  exact cameTo_of_ok (settle_ok (list_of_resolves (silent_silence w) h))

theorem list_cameTo_of_not_resolves
    (h : ∀ repoRoot, ¬ Git.Resolves (runner.answer w.git [] (.toplevel cwd)) repoRoot) :
    CameTo (perform runner pool "list" args cwd) runner w
      (Halt.failure .notInRepository).reply [.toplevel cwd] w.files := by
  apply CameTo.of_silence (blind_perform runner pool _ args cwd) hlog
  rw [perform_list]
  exact cameTo_of_error (silent_silence w) (list_of_not_resolves (silent_silence w) h)

/-- Where debug messages can be logged, removing a workspace replies and touches no file. -/
theorem destroy_returns : ∃ reply made,
    CameTo (perform runner pool "destroy" args cwd) runner w (.ok reply) made w.files := by
  cases args with
  | nil => exact ⟨_, _, destroy_cameTo_of_nil hlog⟩
  | cons name rest =>
    cases hvalid : Workspace.isValidName name with
    | false => exact ⟨_, _, destroy_cameTo_of_invalid hlog hvalid⟩
    | true =>
      by_cases hroot : ∃ r, Git.Resolves (runner.answer w.git [] (.toplevel cwd)) r
      · obtain ⟨repoRoot, hroot⟩ := hroot
        exact ⟨_, _, destroy_cameTo_of_resolves hlog hvalid hroot⟩
      · exact ⟨_, _, destroy_cameTo_of_not_resolves hlog hvalid (not_exists.mp hroot)⟩

theorem list_returns : ∃ reply made,
    CameTo (perform runner pool "list" args cwd) runner w (.ok reply) made w.files := by
  by_cases hroot : ∃ r, Git.Resolves (runner.answer w.git [] (.toplevel cwd)) r
  · obtain ⟨repoRoot, hroot⟩ := hroot
    exact ⟨_, _, list_cameTo_of_resolves hlog hroot⟩
  · exact ⟨_, _, list_cameTo_of_not_resolves hlog (not_exists.mp hroot)⟩

end Perform

theorem mem_table_of_ofName? {name : Text} {verb : Verb} (h : Verb.ofName? name = some verb) :
    (name, verb) ∈ Verb.table := by
  obtain ⟨before, rest, hsplit, _⟩ := List.lookup_eq_some_iff.mp h
  rw [hsplit]
  exact List.mem_append_right _ List.mem_cons_self

def ownReply (name : Text) (args : List Text) : Reply :=
  match Verb.ofName? name with
  | some .help => ⟨true, Text.unlines (helpLines standard)⟩
  | some (.pending notice) => ⟨true, notice⟩
  | _ => unhandled name args

theorem perform_of_other {name : Text} (hc : name ≠ "create") (hd : name ≠ "destroy")
    (hl : name ≠ "list") : perform runner pool name args cwd w = .ok (ownReply name args) w := by
  rw [ownReply]
  cases hverb : Verb.ofName? name with
  | none =>
    rw [perform, hverb]
    rfl
  | some verb =>
    have hmem := mem_table_of_ofName? hverb
    rw [perform_of_verb hverb]
    cases verb with
    | help => rfl
    | pending notice => rfl
    | create => simp [Verb.table, hc] at hmem
    | destroy => simp [Verb.table, hd] at hmem
    | list => simp [Verb.table, hl] at hmem

section Unloggable

variable {fault : Fault} (hlog : w.CannotLog fault)
include hlog

/-- Whatever stops a command at once comes to the fault, since a failure is logged. -/
theorem settle_of_cannotLog {name : Text} {action : Action σ Halt Reply} {halt : Halt}
    (hhalt : ∀ f, halt = .fault f → f = fault) (h : action w = .error halt w) :
    settle name action w = .error fault w := by
  cases halt with
  | fault f =>
    rw [← hhalt f rfl]
    simp only [settle, h]
  | failure failure =>
    simp only [settle, h]
    exact bind_error (say_of_cannotLog hlog _) _

theorem requireRoot_of_cannotLog : requireRoot runner cwd w = .error (.fault fault) w :=
  bind_error (bind_error (Git.run_of_cannotLog runner _ cwd hlog) _) _

theorem destroy_of_cannotLog :
    ∃ halt, (∀ f, halt = .fault f → f = fault) ∧ destroy runner args cwd w = .error halt w := by
  cases args with
  | nil => exact ⟨_, fun _ h => absurd h Halt.noConfusion, destroy_nil⟩
  | cons name rest =>
    cases hvalid : Workspace.isValidName name with
    | false => exact ⟨_, fun _ h => absurd h Halt.noConfusion, destroy_of_invalid hvalid⟩
    | true =>
      refine ⟨.fault fault, fun _ h => (Halt.fault.inj h).symm, ?_⟩
      rw [destroy, bind_ok (requireSome_of_eq w List.head?_cons _),
        bind_ok (requireValid_ok w hvalid), bind_error (requireRoot_of_cannotLog hlog)]

/-- Where debug messages cannot be logged, every command that would ask or log has the fault of
logging, and nothing is asked or changed. -/
theorem perform_of_cannotLog {name : Text}
    (h : name = "create" ∨ name = "destroy" ∨ name = "list") :
    perform runner pool name args cwd w = .error fault w := by
  have hsame : ∀ f, Halt.fault fault = .fault f → f = fault := fun _ h => (Halt.fault.inj h).symm
  rcases h with rfl | rfl | rfl
  · rw [perform_create]
    exact settle_of_cannotLog hlog hsame (bind_error (requireRoot_of_cannotLog hlog) _)
  · have hstop : ∃ halt, (∀ f, halt = .fault f → f = fault) ∧
        destroy runner args cwd w = .error halt w := destroy_of_cannotLog hlog
    obtain ⟨halt, hhalt, hrun⟩ := hstop
    rw [perform_destroy]
    exact settle_of_cannotLog hlog hhalt hrun
  · rw [perform_list]
    exact settle_of_cannotLog hlog hsame (bind_error (requireRoot_of_cannotLog hlog) _)

end Unloggable

theorem perform_of_not_canLog (hlog : ¬ w.CanLog) {name : Text}
    (h : name = "create" ∨ name = "destroy" ∨ name = "list") :
    ∃ f, perform runner pool name args cwd w = .error f w := by
  obtain ⟨f, hf⟩ := cannotLog_of_not_canLog hlog
  exact ⟨f, perform_of_cannotLog hf h⟩

end Command

end Paddock
