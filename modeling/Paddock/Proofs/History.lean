import Paddock.Proofs.Growth
import Paddock.Proofs.Reference
import Paddock.Proofs.WorkspaceRoot

/-!
# Histories of commands

Over a git that keeps a repository every command comes to the ledger's verdict, and the repository
stays the one that the ledger stands for. So a whole run of commands comes to what the ledger says,
whatever the commands, their order, and the names to pick from.
-/

namespace Paddock

set_option autoImplicit false

open World Command

namespace Call

variable {σ : Type}

def perform (runner : Runner σ) (c : Call) : Action σ Fault Reply :=
  Command.perform runner c.pool c.command c.args c.cwd

/-- Performs commands one after another; a fault would stop the run. -/
def performAll (runner : Runner σ) : List Call → Action σ Fault (List Reply)
  | [] => pure []
  | c :: rest => do
    let reply ← c.perform runner
    let replies ← performAll runner rest
    pure (reply :: replies)

end Call

namespace Ledger

variable {r : Repository} {l : Ledger} {pool args : List Text} {name : Text}

theorem choice_eq_some_iff :
    l.choice r pool args = some name ↔ Chosen pool args (· ∈ l.taken r) name := by
  have hchoose : l.choice r pool args = chooseName pool (l.taken r) args := by
    cases args with
    | nil => exact (Workspace.pickUnused_eq _ _).symm
    | cons given rest => rfl
  rw [hchoose, chooseName_eq_some_iff]

end Ledger

/-- The world is in keeping with the ledger. -/
structure Holds {σ : Type} (repo : σ → Repository) (first : Repository) (l : Ledger)
    (w : World σ) : Prop where
  canLog : w.CanLog
  writable : (Workspace.prepare w.files w.cwd first.root w.room.directories).1 = .ok ()
  grown : first.Grown (repo w.git) l
  sound : l.Sound first

section Step

variable {σ : Type} {runner : Runner σ} {repo : σ → Repository} {first : Repository} {l : Ledger}
  {w : World σ} (hgit : Keeper runner repo) (hfit : first.Fit) (hw : Holds repo first l w)
include hgit hfit hw

theorem Holds.resolves (cwd : Place) :
    Git.Resolves (runner.answer w.git [] (.toplevel cwd)) first.root := by
  have h : Git.Resolves (runner.answer w.git [] (.toplevel cwd)) (repo w.git).root := by
    apply hgit.resolves rfl
    rw [hw.grown.root_eq]
    exact hfit.root_ne_nil
  rwa [hw.grown.root_eq] at h

theorem Holds.inUse_iff (cwd : Place) (name : Text) :
    InUse runner cwd w first.root name ↔ name ∈ l.taken first := by
  have hprintable := hw.grown.printable hfit hw.sound
  have h : InUse runner cwd w (repo w.git).root name ↔ _ := hgit.inUse_iff rfl hprintable
  rw [hw.grown.root_eq] at h
  rw [h, ← hw.grown.in_use_iff hfit hw.sound, hw.grown.root_eq]

omit hfit in
theorem Holds.branchAnswer_ok_iff (cwd : Place) {name : Text}
    (hvalid : Workspace.isValidName name = true) :
    (branchAnswer runner cwd w first.root name).ok = true ↔ name ∈ first.branches ++ l.made := by
  have h : (branchAnswer runner cwd w (repo w.git).root name).ok = true ↔ _ :=
    hgit.branchAnswer_ok_iff rfl hvalid
  rw [hw.grown.root_eq] at h
  rw [h, hw.grown.branches, List.mem_append]

theorem Holds.create_cases (pool args : List Text) (cwd : Place) :
    (∃ name, l.creation first pool args = .created name ∧
      Clear runner pool args cwd w first.root name) ∨
    ∃ f made, l.creation first pool args = .refused f ∧
      Bar runner pool args cwd w (.failure f) made := by
  have hready : Ready runner cwd w first.root := ⟨hw.resolves hgit hfit cwd, hw.writable⟩
  have huse := hw.inUse_iff hgit hfit cwd
  have hchosen : ∀ name, l.choice first pool args = some name ↔
      Chosen pool args (InUse runner cwd w first.root) name := by
    intro name
    rw [Ledger.choice_eq_some_iff]
    exact Chosen.congr fun x => (huse x).symm
  cases hchoice : l.choice first pool args with
  | none =>
    refine .inr ⟨.poolExhausted, _, by simp [Ledger.creation, hchoice], .unnamed hready ?_⟩
    intro name hname
    rw [← hchosen, hchoice] at hname
    exact absurd hname (by simp)
  | some name =>
    have hname := (hchosen name).mp hchoice
    cases hvalid : Workspace.isValidName name with
    | false =>
      exact .inr ⟨.nameInvalid, _, by simp [Ledger.creation, hchoice, hvalid],
        .invalid hready hname hvalid⟩
    | true =>
      by_cases htaken : name ∈ l.taken first
      · exact .inr ⟨.nameInUse name, _, by simp [Ledger.creation, hchoice, hvalid, htaken],
          .inUse hready hname hvalid ((huse name).mpr htaken)⟩
      have hfree : ¬ InUse runner cwd w first.root name := (huse name).not.mpr htaken
      have hbranch := hw.branchAnswer_ok_iff hgit cwd hvalid
      by_cases hmade : name ∈ first.branches ++ l.made
      · have hv : l.creation first pool args = .refused (.branchExists name) := by
          simp only [Ledger.creation, hchoice, hvalid, htaken, hmade]
          simp
        exact .inr ⟨_, _, hv, .branched hready hname hvalid hfree (hbranch.mpr hmade)⟩
      · have hv : l.creation first pool args = .created name := by
          simp only [Ledger.creation, hchoice, hvalid, htaken, hmade]
          simp
        refine .inl ⟨name, hv, hready, hname, hvalid, hfree, ?_⟩
        rw [← Bool.not_eq_true]
        intro hok
        exact hmade (hbranch.mp hok)

theorem Holds.additionAnswer_ok (cwd : Place) {name : Text}
    (hvalid : Workspace.isValidName name = true) (hbranch : name ∉ first.branches ++ l.made) :
    (additionAnswer runner cwd w first.root name).ok = true := by
  have h : (additionAnswer runner cwd w (repo w.git).root name).ok = true ↔ _ :=
    hgit.additionAnswer_ok_iff rfl hvalid
  rw [hw.grown.root_eq] at h
  apply h.mpr
  constructor
  · rw [hw.grown.branches, ← List.mem_append]
    exact hbranch
  · rw [← hw.grown.root_eq, hw.grown.registered_iff hfit]
    intro hlive
    exact hbranch (List.mem_append_right _ (hw.sound.live_made name hlive))

end Step

structure Stepped {σ : Type} (runner : Runner σ) (repo : σ → Repository) (first : Repository)
    (l : Ledger) (w : World σ) (c : Call) (v : Verdict) (reply : Reply) (w' : World σ) : Prop where
  run_eq : c.perform runner w = .ok reply w'
  fits : v.Fits reply
  holds : Holds repo first (l.record v) w'
  asked : ∃ made, w'.requests = w.requests ++ made ∧
    ∀ name, (∃ q ∈ made, q.argv = Request.additionArgv name) ↔ v = .created name

section Step

variable {σ : Type} {runner : Runner σ} {repo : σ → Repository} {first : Repository} {l : Ledger}
  {w : World σ} (hgit : Keeper runner repo) (hfit : first.Fit) (hw : Holds repo first l w)
include hw

theorem Holds.stepped {c : Call} {v : Verdict} {reply : Reply} {made : List Request}
    {left : FileTree} (hrun : CameTo (c.perform runner) runner w (.ok reply) made left)
    (hv : l.verdict first c = v) (hfits : v.Fits reply)
    (hleft : (Workspace.prepare left w.cwd first.root w.room.directories).1 = .ok ())
    (hgrown : first.Grown (repo (runner.after w.git made)) (l.record v))
    (hasked : ∀ name, (∃ q ∈ made, q.argv = Request.additionArgv name) ↔ v = .created name) :
    ∃ reply w', Stepped runner repo first l w c (l.verdict first c) reply w' := by
  have hblind : Blind (c.perform runner) := blind_perform runner c.pool c.command c.args c.cwd
  have hsound := hw.sound.record c
  rw [hv] at hsound ⊢
  refine ⟨reply, worldAfter (c.perform runner) w, eq_ok_of_resultOf hrun.result_eq, hfits,
    ⟨hblind.canLog hw.canLog, ?_, ?_, hsound⟩, made, hrun.requests_eq, hasked⟩
  · rw [hrun.files_eq, hrun.cwd_eq, hrun.room_eq]
    exact hleft
  · rw [hrun.git_eq]
    exact hgrown

include hgit hfit

theorem Holds.writable_after (cwd : Place) :
    (Workspace.prepare (filesAfter runner cwd w) w.cwd first.root w.room.directories).1 =
      .ok () := by
  have hready : Ready runner cwd w first.root := ⟨hw.resolves hgit hfit cwd, hw.writable⟩
  rw [Workspace.prepare_again hready.prepare_eq]

theorem Holds.step_create (args pool : List Text) (cwd : Place) : ∃ reply w',
    Stepped runner repo first l w ⟨"create", args, pool, cwd⟩
      (l.verdict first ⟨"create", args, pool, cwd⟩) reply w' := by
  have hleft := hw.writable_after hgit hfit cwd
  have hverdict : l.verdict first ⟨"create", args, pool, cwd⟩ = l.creation first pool args :=
    if_pos rfl
  rcases hw.create_cases hgit hfit pool args cwd with ⟨name, hv, hclear⟩ | ⟨f, made, hv, hbar⟩
  · have hrun := create_cameTo_of_clear hw.canLog hclear
    obtain ⟨_, _, _, hold, hnew⟩ := Ledger.creation_eq_created hv
    have hok : (additionAnswer runner cwd w first.root name).ok = true := by
      apply hw.additionAnswer_ok hgit hfit cwd hclear.valid
      rw [List.mem_append, not_or]
      exact ⟨hold, hnew⟩
    have hadded : (repo w.git).Added
        (repo (runner.after w.git (creation cwd (repo w.git).root name))) name := by
      apply hgit.added_of_creation rfl hclear.valid
      rw [hw.grown.root_eq]
      exact hok
    rw [hw.grown.root_eq] at hadded
    refine hw.stepped hrun (hverdict.trans hv) ?hfits ?hleft ?hgrown ?hasked
    case hfits =>
      rw [creationReply, if_pos hok]
      exact ⟨rfl, _, rfl⟩
    case hleft => exact hleft
    case hgrown => exact hw.grown.added hadded
    case hasked =>
      intro other
      rw [addition_mem_creation_iff, Verdict.created.injEq]
  · have hrun := create_cameTo_of_bar hw.canLog hbar
    have hrepo : repo (runner.after w.git made) = repo w.git :=
      hgit.repo_after_bar rfl (hw.grown.root_eq ▸ hfit.root_ne_nil) hbar
    refine hw.stepped hrun (hverdict.trans hv) rfl hleft ?hgrown ?hasked
    case hgrown => exact hrepo ▸ hw.grown
    case hasked =>
      intro other
      simp [no_addition_of_bar hbar other]

theorem Holds.step_destroy (args pool : List Text) (cwd : Place) : ∃ reply w',
    Stepped runner repo first l w ⟨"destroy", args, pool, cwd⟩
      (l.verdict first ⟨"destroy", args, pool, cwd⟩) reply w' := by
  have hverdict : l.verdict first ⟨"destroy", args, pool, cwd⟩ = l.removal args := by
    simp [Ledger.verdict]
  have hroot := hw.grown.root_eq
  cases args with
  | nil =>
    have hrun := @destroy_cameTo_of_nil σ runner pool cwd w hw.canLog
    have hv : l.removal [] = .refused .nameMissing := rfl
    refine hw.stepped hrun (hverdict.trans hv) rfl hw.writable hw.grown ?_
    intro other
    simp
  | cons name rest =>
    cases hvalid : Workspace.isValidName name with
    | false =>
      have hrun := @destroy_cameTo_of_invalid σ runner pool cwd w hw.canLog name rest hvalid
      have hv : l.removal (name :: rest) = .refused .nameInvalid := by
        simp [Ledger.removal, hvalid]
      refine hw.stepped hrun (hverdict.trans hv) rfl hw.writable hw.grown ?_
      intro other
      simp
    | true =>
      have hresolves := hw.resolves hgit hfit cwd
      have hrun := @destroy_cameTo_of_resolves σ runner pool cwd w hw.canLog name first.root rest
        hvalid hresolves
      have hok : (removalAnswer runner cwd w (repo w.git).root name).ok = true ↔ _ :=
        hgit.removalAnswer_ok_iff rfl hvalid
      rw [hw.grown.registered_iff hfit, hroot] at hok
      by_cases hlive : name ∈ l.live
      · have hv : l.removal (name :: rest) = .removed name := by
          simp [Ledger.removal, hvalid, hlive]
        have hremoved : (repo w.git).Removed (repo (runner.after w.git
            [.toplevel cwd, .removal (repo w.git).root name])) name :=
          hgit.removed_of_removal rfl hvalid (hroot ▸ hok.mpr hlive)
        rw [hroot] at hremoved
        refine hw.stepped hrun (hverdict.trans hv) ?hfits ?hleft ?hgrown ?hasked
        case hfits =>
          rw [removalReply, if_pos (hok.mpr hlive)]
          exact ⟨rfl, _, rfl⟩
        case hleft => exact hw.writable
        case hgrown => exact hw.grown.removed hfit hremoved
        case hasked =>
          intro other
          simp
      · have hv : l.removal (name :: rest) = .notFound name := by
          simp [Ledger.removal, hvalid, hlive]
        have hno : (removalAnswer runner cwd w first.root name).ok = false := by
          rw [← Bool.not_eq_true]
          exact fun h => hlive (hok.mp h)
        have hrepo : repo (runner.after w.git
            [.toplevel cwd, .removal (repo w.git).root name]) = repo w.git :=
          hgit.repo_after_refused_removal rfl hvalid (hroot ▸ hno)
        rw [hroot] at hrepo
        refine hw.stepped hrun (hverdict.trans hv) ?hfits ?hleft ?hgrown ?hasked
        case hfits =>
          rw [removalReply, hno]
          exact ⟨rfl, _, rfl⟩
        case hleft => exact hw.writable
        case hgrown => exact hrepo ▸ hw.grown
        case hasked =>
          intro other
          simp

theorem Holds.step_list (args pool : List Text) (cwd : Place) : ∃ reply w',
    Stepped runner repo first l w ⟨"list", args, pool, cwd⟩
      (l.verdict first ⟨"list", args, pool, cwd⟩) reply w' := by
  have hv : l.verdict first ⟨"list", args, pool, cwd⟩ = .listed l.live := by
    simp [Ledger.verdict]
  have hprintable := hw.grown.printable hfit hw.sound
  have hrun := @list_cameTo_of_resolves σ runner pool args cwd w hw.canLog first.root
    (hw.resolves hgit hfit cwd)
  have hrepo : repo (runner.after w.git [.toplevel cwd, .listing (repo w.git).root]) = repo w.git :=
    hgit.repo_after_search rfl
  rw [hw.grown.root_eq] at hrepo
  have hnames : ∀ name, name ∈ Worktree.directoryNames (Worktree.ofPorcelain (Git.listed
      (runner.answer w.git [.toplevel cwd] (.listing (repo w.git).root)))) (repo w.git).root ↔
      name ∈ l.live := by
    intro name
    rw [Repository.mem_directoryNames_iff_of_prints hprintable (hgit.prints rfl hprintable)]
    exact hw.grown.exists_place_iff hfit hw.sound name
  rw [hw.grown.root_eq] at hnames
  refine hw.stepped hrun hv ?hfits ?hleft ?hgrown ?hasked
  case hfits => rw [Verdict.Fits, Worktree.listedNames, Text.sortedSet_congr hnames]
  case hleft => exact hw.writable
  case hgrown => exact hrepo ▸ hw.grown
  case hasked =>
    intro other
    simp

/-- Every command comes to the ledger's verdict. -/
theorem Holds.step (c : Call) :
    ∃ reply w', Stepped runner repo first l w c (l.verdict first c) reply w' := by
  obtain ⟨command, args, pool, cwd⟩ := c
  by_cases hc : command = "create"
  · subst hc
    exact hw.step_create hgit hfit args pool cwd
  by_cases hd : command = "destroy"
  · subst hd
    exact hw.step_destroy hgit hfit args pool cwd
  by_cases hl : command = "list"
  · subst hl
    exact hw.step_list hgit hfit args pool cwd
  have hrun := @perform_of_other σ runner pool args cwd w command hc hd hl
  have hv : l.verdict first ⟨command, args, pool, cwd⟩ = .answered (ownReply command args) := by
    simp [Ledger.verdict, hc, hd, hl]
  rw [hv]
  exact ⟨ownReply command args, w, hrun, rfl, hw, [], by simp, fun other => by simp⟩

theorem Holds.run (calls : List Call) : ∃ replies w',
    Call.performAll runner calls w = .ok replies w' ∧
      List.Forall₂ Verdict.Fits (l.run first calls).1 replies ∧
      Holds repo first (l.run first calls).2 w' ∧
      ∃ made, w'.requests = w.requests ++ made ∧
        ∀ name, (∃ q ∈ made, q.argv = Request.additionArgv name) ↔
          Verdict.created name ∈ (l.run first calls).1 := by
  -- by induction on the calls, the ledger being kept along
  induction calls generalizing l w with
  | nil => exact ⟨[], w, rfl, .nil, hw, [], by simp, by simp [Ledger.run]⟩
  | cons c rest ih =>
    obtain ⟨reply, v, hstep⟩ := hw.step hgit hfit c
    obtain ⟨madeFirst, hfirst, haskedFirst⟩ := hstep.asked
    obtain ⟨replies, w', hrun, hfits, hholds, madeRest, hrest, haskedRest⟩ := ih hstep.holds
    refine ⟨reply :: replies, w', ?_, .cons hstep.fits hfits, hholds,
      madeFirst ++ madeRest, ?_, ?_⟩
    · rw [Call.performAll, bind_ok hstep.run_eq, bind_ok hrun]
      rfl
    · rw [hrest, hfirst, List.append_assoc]
    · intro name
      simp only [List.mem_append, or_and_right, exists_or, haskedFirst, haskedRest, Ledger.run,
        List.mem_cons, eq_comm]

end Step

/-- Whatever commands are given, in whatever order, from wherever, and with whatever names to pick
from: each is replied to with the ledger's verdict, the repository ends as the ledger says, and git
was asked to add just the worktrees of the workspaces that were created. -/
theorem replies_of_history {σ : Type} (runner : Runner σ) (repo : σ → Repository) (w : World σ)
    (calls : List Call) (hgit : Keeper runner repo) (hfit : (repo w.git).Fit) (hlog : w.CanLog)
    (hwritable : (Workspace.prepare w.files w.cwd (repo w.git).root w.room.directories).1 =
      .ok ()) :
    ∃ verdicts l replies w', Ledger.run (repo w.git) {} calls = (verdicts, l) ∧
      Call.performAll runner calls w = .ok replies w' ∧
      List.Forall₂ Verdict.Fits verdicts replies ∧
      (repo w.git).Grown (repo w'.git) l ∧ l.Sound (repo w.git) ∧
      (∀ name, name ∈ l.live ↔ Ledger.Stands name verdicts) ∧
      (∀ name, name ∈ l.made ↔ .created name ∈ verdicts) ∧
      ∃ made, w'.requests = w.requests ++ made ∧
        ∀ name, (∃ q ∈ made, q.argv = Request.additionArgv name) ↔ .created name ∈ verdicts := by
  have hw : Holds repo (repo w.git) {} w :=
    ⟨hlog, hwritable, Repository.grown_refl _, Ledger.sound_empty _⟩
  obtain ⟨replies, w', hrun, hfits, hholds, hasked⟩ := hw.run hgit hfit calls
  exact ⟨_, _, replies, w', rfl, hrun, hfits, hholds.grown, hholds.sound,
    fun name => Ledger.mem_live_run_iff calls, fun name => Ledger.mem_made_run_iff calls, hasked⟩

def newRepository : Repository := ⟨"/r", [⟨"/r", some "main"⟩], ["main"]⟩

def newWorld : World Repository where
  git := newRepository
  files := []
  cwd := []
  environment := []
  console := {}
  requests := []

/-- The name of a workspace that was removed is picked again, and then its branch is in the way. -/
def otterTwice : List Call :=
  [⟨"create", [], ["otter", "lynx"], .here⟩, ⟨"destroy", ["otter"], [], .here⟩,
    ⟨"create", [], ["otter", "lynx"], .here⟩, ⟨"create", ["lynx"], [], .here⟩,
    ⟨"list", [], [], .here⟩]

theorem fit_newRepository : newRepository.Fit := by
  have hone : ∀ c ∈ newRepository.checkouts, c = ⟨"/r", some "main"⟩ := by
    intro c hc
    exact List.mem_singleton.mp hc
  constructor
  case toPrintable =>
    constructor
    · intro c hc
      rw [hone c hc]
      decide
    · intro c hc b hb
      rw [hone c hc] at hb
      obtain rfl := Option.some.inj hb
      decide
  case absolute => decide
  case tidy => exact ⟨by decide, by decide⟩
  case line => decide
  case places =>
    intro c hc
    rw [hone c hc]
    exact ⟨by decide, by decide, by decide⟩
  case outside =>
    intro c hc
    rw [hone c hc]
    decide
  case known =>
    intro c hc b hb
    rw [hone c hc] at hb
    obtain rfl := Option.some.inj hb
    decide

theorem replies_to_otterTwice : Keeper referenceGit id ∧ newRepository.Fit ∧ newWorld.CanLog ∧
    (Workspace.prepare newWorld.files newWorld.cwd newRepository.root
      newWorld.room.directories).1 = .ok () ∧
    (Ledger.run newRepository {} otterTwice).1 = [.created "otter", .removed "otter",
      .refused (.branchExists "otter"), .created "lynx", .listed ["lynx"]] ∧
    ∃ verdicts l replies w', Ledger.run newRepository {} otterTwice = (verdicts, l) ∧
      Call.performAll referenceGit otterTwice newWorld = .ok replies w' ∧
      List.Forall₂ Verdict.Fits verdicts replies ∧
      newRepository.Grown w'.git l ∧ l.Sound newRepository ∧
      (∀ name, name ∈ l.live ↔ Ledger.Stands name verdicts) ∧
      (∀ name, name ∈ l.made ↔ .created name ∈ verdicts) ∧
      ∃ made, w'.requests = newWorld.requests ++ made ∧
        ∀ name, (∃ q ∈ made, q.argv = Request.additionArgv name) ↔ .created name ∈ verdicts := by
  have hlog : newWorld.CanLog := fun h => absurd h (by decide +kernel)
  have hwritable : (Workspace.prepare newWorld.files newWorld.cwd newRepository.root
      newWorld.room.directories).1 = .ok () := by
    decide +kernel
  refine ⟨referenceGit_keeper, fit_newRepository, hlog, hwritable, by decide +kernel, ?_⟩
  exact replies_of_history referenceGit id newWorld otterTwice referenceGit_keeper
    fit_newRepository hlog hwritable

end Paddock
