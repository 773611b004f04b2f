import Paddock.Proofs.Asking
import Paddock.Proofs.Naming

/-!
# When a workspace is made

Making a workspace goes through six conditions in a fixed order. If all of them hold then git is
asked to add the worktree; otherwise the first one that fails decides what the command comes to, and
nothing more is asked. Which names are taken is said by the lines of the listing.
-/

namespace Paddock

set_option autoImplicit false

namespace Request

def toplevel (cwd : Place) : Request := ⟨Git.showToplevel, cwd⟩

def listing (repoRoot : Text) : Request := ⟨Git.listWorktrees, .ofText repoRoot⟩

def branch (repoRoot name : Text) : Request := ⟨Git.verifyBranch name, .ofText repoRoot⟩

def additionArgv (name : Text) : List Text :=
  [Text.ofString "git", Text.ofString "worktree", Text.ofString "add",
    Text.ofString "workspaces/" ++ name, Text.ofString "-b", name, Text.ofString "HEAD"]

def removalArgv (name : Text) : List Text :=
  [Text.ofString "git", Text.ofString "worktree", Text.ofString "remove",
    Text.ofString "workspaces/" ++ name]

def addition (repoRoot name : Text) : Request := ⟨additionArgv name, .ofText repoRoot⟩

def removal (repoRoot name : Text) : Request := ⟨removalArgv name, .ofText repoRoot⟩

theorem ne_additionArgv_of_length {argv : List Text} (h : argv.length ≠ 7) (name : Text) :
    argv ≠ additionArgv name := by
  rintro rfl
  exact h rfl

@[simp] theorem toplevel_argv_ne (cwd : Place) (name : Text) :
    (toplevel cwd).argv ≠ additionArgv name :=
  @ne_additionArgv_of_length Git.showToplevel (by decide) name

@[simp] theorem listing_argv_ne (repoRoot name : Text) :
    (listing repoRoot).argv ≠ additionArgv name :=
  @ne_additionArgv_of_length Git.listWorktrees (by decide) name

@[simp] theorem branch_argv_ne (repoRoot other name : Text) :
    (branch repoRoot other).argv ≠ additionArgv name := by
  apply ne_additionArgv_of_length
  simp [branch, Git.verifyBranch]

@[simp] theorem removal_argv_ne (repoRoot other name : Text) :
    (removal repoRoot other).argv ≠ additionArgv name :=
  ne_additionArgv_of_length (by simp [removal, removalArgv]) name

@[simp] theorem addition_argv_eq_iff {repoRoot name other : Text} :
    (addition repoRoot name).argv = additionArgv other ↔ name = other := by
  constructor
  · intro h
    have hword := congrArg (fun argv => argv[5]?) h
    exact Option.some.inj hword
  · intro h
    rw [h]
    rfl

end Request

namespace Git

theorem addWorktree?_of_isValidName {name : Text} (h : Workspace.isValidName name = true) :
    addWorktree? name headRef = some (Request.additionArgv name) := by
  rw [addWorktree?, Workspace.relativePath?_of_isValidName h]
  rfl

theorem removeWorktree?_of_isValidName {name : Text} (h : Workspace.isValidName name = true) :
    removeWorktree? name = some (Request.removalArgv name) := by
  rw [removeWorktree?, Workspace.relativePath?_of_isValidName h]
  rfl

/-- The root is what git prints, without one line feed at the end. -/
def Resolves (o : Outcome) (repoRoot : Text) : Prop :=
  o.ok = true ∧ repoRoot ≠ [] ∧ (o.stdout = repoRoot ++ [Text.newline] ∨
    o.stdout = repoRoot ∧ repoRoot.getLast? ≠ some Text.newline)

theorem dropLineFeed_eq_iff {x y : Text} :
    dropLineFeed x = y ↔
      x = y ++ [Text.newline] ∨ x = y ∧ y.getLast? ≠ some Text.newline := by
  by_cases hx : x.getLast? = some Text.newline
  · obtain ⟨front, rfl⟩ := List.getLast?_eq_some_iff.mp hx
    have hd : dropLineFeed (front ++ [Text.newline]) = front := by simp [dropLineFeed]
    rw [hd]
    constructor
    · intro h
      exact Or.inl (h ▸ rfl)
    · intro h
      rcases h with h | ⟨rfl, hy⟩
      · exact List.append_cancel_right h
      · exact absurd hx hy
  · rw [dropLineFeed, if_neg hx]
    constructor
    · intro h
      exact Or.inr ⟨h, h ▸ hx⟩
    · intro h
      rcases h with rfl | ⟨h, _⟩
      · exact absurd (by simp) hx
      · exact h

theorem rootOf_eq_some_iff {o : Outcome} {repoRoot : Text} :
    rootOf o = some repoRoot ↔ Resolves o repoRoot := by
  rw [Resolves, ← dropLineFeed_eq_iff]
  by_cases ho : o.ok = true
  · by_cases hr : dropLineFeed o.stdout = []
    · simp only [rootOf, ho, hr, ne_eq, not_true_eq_false, decide_false, Bool.and_false,
        Bool.false_eq_true, if_false, reduceCtorEq, true_and, false_iff]
      rintro ⟨hne, rfl⟩
      exact hne rfl
    · simp only [rootOf, ho, hr, ne_eq, not_false_eq_true, decide_true, Bool.and_self, if_true,
        Option.some.injEq, true_and]
      constructor
      · rintro rfl
        exact ⟨hr, rfl⟩
      · exact fun h => h.2
  · simp [rootOf, ho]

theorem rootOf_eq_none_iff {o : Outcome} :
    rootOf o = none ↔ ∀ repoRoot, ¬ Resolves o repoRoot := by
  rw [Option.eq_none_iff_forall_ne_some]
  exact forall_congr' fun _ => not_congr rootOf_eq_some_iff

theorem Resolves.unique {o : Outcome} {repoRoot other : Text} (h : Resolves o repoRoot)
    (h' : Resolves o other) : other = repoRoot := by
  rw [← rootOf_eq_some_iff] at h h'
  exact Option.some.inj (h'.symm.trans h)

theorem Resolves.mem_stdout {o : Outcome} {repoRoot : Text} (h : Resolves o repoRoot) {g : Glyph}
    (hg : g ∈ repoRoot) : g ∈ o.stdout := by
  obtain ⟨_, _, hline | ⟨hline, _⟩⟩ := h
  · rw [hline]
    exact List.mem_append_left _ hg
  · rw [hline]
    exact hg

theorem Resolves.eq_of_stdout {o : Outcome} {repoRoot found : Text} (h : Resolves o found)
    (hout : o.stdout = repoRoot ++ [Text.newline]) : found = repoRoot := by
  obtain ⟨_, _, hline | ⟨hline, hlast⟩⟩ := h
  · exact List.append_cancel_right (hline.symm.trans hout)
  · rw [← hline, hout, List.getLast?_concat] at hlast
    exact absurd rfl hlast

def listed (o : Outcome) : Text := if o.ok then o.stdout else []

theorem worktreesOf_eq (o : Outcome) : worktreesOf o = Worktree.ofPorcelain (listed o) := by
  unfold worktreesOf listed
  split <;> rfl

end Git

namespace Worktree

/-- The name is taken, by a directory on a path line or by a branch that is checked out. -/
def Taken (repoRoot listing name : Text) : Prop :=
  (∃ path, pathKeyword ++ path ∈ Text.lines listing ∧
    Workspace.nameOfPath? repoRoot path = some name) ∨
  ∃ s ∈ stanzas (Text.lines listing), s.isDetached = false ∧
    ∃ ref, s.branch = some ref ∧ shortBranch ref = name

theorem branchName?_worktree (s : Stanza) (name : Text) :
    s.worktree.branchName? = some name ↔
      s.isDetached = false ∧ ∃ ref, s.branch = some ref ∧ shortBranch ref = name := by
  by_cases hd : s.isDetached = true
  · simp [branchName?, Stanza.worktree, hd]
  · simp [branchName?, Stanza.worktree, hd]

theorem mem_usedNames_iff {repoRoot listing name : Text} :
    name ∈ usedNames (ofPorcelain listing) repoRoot ↔ Taken repoRoot listing name := by
  simp only [usedNames, ofPorcelain_eq, List.mem_flatMap, List.mem_map, takenBy, List.mem_append,
    Option.mem_toList]
  constructor
  · intro h
    obtain ⟨_, ⟨s, hs, rfl⟩, hn⟩ := h
    rcases hn with hn | hn
    · exact Or.inl ⟨s.path, exists_stanza_iff.mp ⟨s, hs, rfl⟩, hn⟩
    · exact Or.inr ⟨s, hs, (branchName?_worktree s name).mp hn⟩
  · intro h
    rcases h with ⟨path, hp, hn⟩ | ⟨s, hs, hn⟩
    · obtain ⟨s, hs, rfl⟩ := exists_stanza_iff.mpr hp
      exact ⟨_, ⟨s, hs, rfl⟩, .inl hn⟩
    · exact ⟨_, ⟨s, hs, rfl⟩, .inr ((branchName?_worktree s name).mpr hn)⟩

end Worktree

namespace Command

open World

variable {σ : Type} (runner : Runner σ) (pool args : List Text) (cwd : Place) (w : World σ)

/-- A name that the listing read for a new workspace shows to be taken. -/
def InUse (repoRoot : Text) : Text → Prop :=
  Worktree.Taken repoRoot
    (Git.listed (runner.answer w.git [.toplevel cwd] (.listing repoRoot)))

def usedThere (repoRoot : Text) : List Text :=
  Worktree.usedNames (Worktree.ofPorcelain
    (Git.listed (runner.answer w.git [.toplevel cwd] (.listing repoRoot)))) repoRoot

theorem mem_usedThere_iff {repoRoot name : Text} :
    name ∈ usedThere runner cwd w repoRoot ↔ InUse runner cwd w repoRoot name :=
  Worktree.mem_usedNames_iff

def branchAnswer (repoRoot name : Text) : Outcome :=
  runner.answer w.git [.toplevel cwd, .listing repoRoot] (.branch repoRoot name)

def additionAnswer (repoRoot name : Text) : Outcome :=
  runner.answer w.git [.toplevel cwd, .listing repoRoot, .branch repoRoot name]
    (.addition repoRoot name)

def creation (repoRoot name : Text) : List Request :=
  [.toplevel cwd, .listing repoRoot, .branch repoRoot name, .addition repoRoot name]

/-- The repository is found, and its workspace root can be written. -/
structure Ready (repoRoot : Text) : Prop where
  resolves : Git.Resolves (runner.answer w.git [] (.toplevel cwd)) repoRoot
  writable : (Workspace.prepare w.files w.cwd repoRoot w.room.directories).1 = .ok ()

/-- Nothing speaks against making a workspace of this name in this repository. -/
structure Clear (repoRoot name : Text) : Prop extends Ready runner cwd w repoRoot where
  chosen : Chosen pool args (InUse runner cwd w repoRoot) name
  valid : Workspace.isValidName name = true
  free : ¬ InUse runner cwd w repoRoot name
  unbranched : (branchAnswer runner cwd w repoRoot name).ok = false

/-- The first condition that fails, what it makes of the command, and what is asked until then. -/
inductive Bar : Halt → List Request → Prop where
  | noRepository
      (h : ∀ repoRoot, ¬ Git.Resolves (runner.answer w.git [] (.toplevel cwd)) repoRoot) :
      Bar (.failure .notInRepository) [.toplevel cwd]
  | unwritable {repoRoot : Text} {f : Fault}
      (hroot : Git.Resolves (runner.answer w.git [] (.toplevel cwd)) repoRoot)
      (h : (Workspace.prepare w.files w.cwd repoRoot w.room.directories).1 = .error f) :
      Bar (Workspace.rootHalt f) [.toplevel cwd]
  | unnamed {repoRoot : Text} (hready : Ready runner cwd w repoRoot)
      (h : ∀ name, ¬ Chosen pool args (InUse runner cwd w repoRoot) name) :
      Bar (.failure .poolExhausted) [.toplevel cwd, .listing repoRoot]
  | invalid {repoRoot name : Text} (hready : Ready runner cwd w repoRoot)
      (hname : Chosen pool args (InUse runner cwd w repoRoot) name)
      (h : Workspace.isValidName name = false) :
      Bar (.failure .nameInvalid) [.toplevel cwd, .listing repoRoot]
  | inUse {repoRoot name : Text} (hready : Ready runner cwd w repoRoot)
      (hname : Chosen pool args (InUse runner cwd w repoRoot) name)
      (hvalid : Workspace.isValidName name = true) (h : InUse runner cwd w repoRoot name) :
      Bar (.failure (.nameInUse name)) [.toplevel cwd, .listing repoRoot]
  | branched {repoRoot name : Text} (hready : Ready runner cwd w repoRoot)
      (hname : Chosen pool args (InUse runner cwd w repoRoot) name)
      (hvalid : Workspace.isValidName name = true) (hfree : ¬ InUse runner cwd w repoRoot name)
      (h : (branchAnswer runner cwd w repoRoot name).ok = true) :
      Bar (.failure (.branchExists name))
        [.toplevel cwd, .listing repoRoot, .branch repoRoot name]

theorem clear_or_bar : (∃ repoRoot name, Clear runner pool args cwd w repoRoot name) ∨
    ∃ halt requests, Bar runner pool args cwd w halt requests := by
  by_cases hroot : ∃ r, Git.Resolves (runner.answer w.git [] (.toplevel cwd)) r
  swap
  · exact .inr ⟨_, _, .noRepository (not_exists.mp hroot)⟩
  obtain ⟨repoRoot, hroot⟩ := hroot
  cases hfiles : (Workspace.prepare w.files w.cwd repoRoot w.room.directories).1 with
  | error f => exact .inr ⟨_, _, .unwritable hroot hfiles⟩
  | ok _ =>
    have hready : Ready runner cwd w repoRoot := ⟨hroot, hfiles⟩
    by_cases hname : ∃ name, Chosen pool args (InUse runner cwd w repoRoot) name
    swap
    · exact .inr ⟨_, _, .unnamed hready (not_exists.mp hname)⟩
    obtain ⟨name, hname⟩ := hname
    cases hvalid : Workspace.isValidName name with
    | false => exact .inr ⟨_, _, .invalid hready hname hvalid⟩
    | true =>
      by_cases hfree : InUse runner cwd w repoRoot name
      · exact .inr ⟨_, _, .inUse hready hname hvalid hfree⟩
      · cases hbranch : (branchAnswer runner cwd w repoRoot name).ok with
        | true => exact .inr ⟨_, _, .branched hready hname hvalid hfree hbranch⟩
        | false => exact .inl ⟨repoRoot, name, hready, hname, hvalid, hfree, hbranch⟩

section Asked

variable {runner pool args cwd w}

theorem addition_mem_creation_iff {repoRoot name other : Text} :
    (∃ q ∈ creation cwd repoRoot name, q.argv = Request.additionArgv other) ↔ name = other := by
  simp [creation]

theorem no_addition_of_bar {halt : Halt} {made : List Request}
    (h : Bar runner pool args cwd w halt made) (name : Text) :
    ¬ ∃ q ∈ made, q.argv = Request.additionArgv name := by
  cases h <;> simp

end Asked

/-- The files after the workspace root was prepared, if a repository was found. -/
def filesAfter : FileTree :=
  match Git.rootOf (runner.answer w.git [] (.toplevel cwd)) with
  | none => w.files
  | some repoRoot => (Workspace.prepare w.files w.cwd repoRoot w.room.directories).2

theorem Ready.prepare_eq {repoRoot : Text} (h : Ready runner cwd w repoRoot) :
    Workspace.prepare w.files w.cwd repoRoot w.room.directories =
      (.ok (), filesAfter runner cwd w) := by
  rw [filesAfter, Git.rootOf_eq_some_iff.mpr h.resolves, ← h.writable]

theorem requireSome_of_eq {α : Type} {o : Option α} {a : α} (h : o = some a) (f : Failure) :
    (requireSome f o : Action σ Halt α) w = .ok a w := by
  rw [h]
  rfl

theorem requireValid_ok {name : Text} (h : Workspace.isValidName name = true) :
    requireValid name w = .ok () w := by
  rw [requireValid, if_pos h]
  rfl

theorem requireValid_error {name : Text} (h : Workspace.isValidName name = false) :
    requireValid name w = .error (.failure .nameInvalid) w := by
  rw [requireValid, if_neg (by simp [h])]
  rfl

section Silent

variable {runner pool args cwd w} (hs : w.Silent)
include hs

theorem repoRoot?_silent :
    (Git.repoRoot? runner cwd : Action σ Halt (Option Text)) w =
      .ok (Git.rootOf (runner (.toplevel cwd) w.git).1) (w.advance runner [.toplevel cwd]) :=
  bind_ok (Git.run_silent runner _ cwd hs) _

theorem requireRoot_ok {repoRoot : Text}
    (h : Git.Resolves (runner.answer w.git [] (.toplevel cwd)) repoRoot) :
    requireRoot runner cwd w = .ok repoRoot (w.advance runner [.toplevel cwd]) := by
  have hr : Git.rootOf (runner (.toplevel cwd) w.git).1 = some repoRoot :=
    Git.rootOf_eq_some_iff.mpr h
  rw [requireRoot, bind_ok (repoRoot?_silent hs), hr]
  rfl

theorem requireRoot_error
    (h : ∀ repoRoot, ¬ Git.Resolves (runner.answer w.git [] (.toplevel cwd)) repoRoot) :
    requireRoot runner cwd w =
      .error (.failure .notInRepository) (w.advance runner [.toplevel cwd]) := by
  have hr : Git.rootOf (runner (.toplevel cwd) w.git).1 = none := Git.rootOf_eq_none_iff.mpr h
  rw [requireRoot, bind_ok (repoRoot?_silent hs), hr]
  rfl

theorem worktrees_silent (repoRoot : Text) :
    (Git.worktrees runner repoRoot : Action σ Halt (List Worktree)) w =
      .ok (Worktree.ofPorcelain (Git.listed (runner (.listing repoRoot) w.git).1))
        (w.advance runner [.listing repoRoot]) := by
  rw [Git.worktrees, bind_ok (Git.run_silent runner _ _ hs), Git.worktreesOf_eq]
  rfl

theorem branchExists_silent (repoRoot name : Text) :
    (Git.branchExists runner repoRoot name : Action σ Halt Bool) w =
      .ok (runner (.branch repoRoot name) w.git).1.ok
        (w.advance runner [.branch repoRoot name]) := by
  rw [Git.branchExists, bind_ok (Git.run_silent runner _ _ hs)]
  rfl

theorem create_of_ready {repoRoot : Text} (h : Ready runner cwd w repoRoot) :
    create runner pool args cwd w =
      (do
        let name ← requireSome .poolExhausted
          (chooseName pool (usedThere runner cwd w repoRoot) args)
        requireFree runner repoRoot (usedThere runner cwd w repoRoot) name
        add runner repoRoot name : Action σ Halt Reply)
      ((w.advance runner [.toplevel cwd, .listing repoRoot]).withFiles
        (filesAfter runner cwd w)) := by
  have hprep := Workspace.prepareRoot_ok (w := w.advance runner [.toplevel cwd]) h.prepare_eq
  have hv : ((w.advance runner [.toplevel cwd]).withFiles (filesAfter runner cwd w)).Silent := hs
  rw [create, bind_ok (requireRoot_ok hs h.resolves), bind_ok hprep,
    bind_ok (worktrees_silent hv repoRoot), advance_withFiles, advance_advance]
  rfl

theorem requireFree_silent (repoRoot : Text) {used : List Text} {name : Text}
    (hvalid : Workspace.isValidName name = true) (hfree : name ∉ used) :
    requireFree runner repoRoot used name w =
      if (runner (.branch repoRoot name) w.git).1.ok = true then
        .error (.failure (.branchExists name)) (w.advance runner [.branch repoRoot name])
      else .ok () (w.advance runner [.branch repoRoot name]) := by
  have hc : ¬ used.contains name = true := by simpa using hfree
  rw [requireFree, bind_ok (requireValid_ok w hvalid)]
  simp only [if_neg hc]
  rw [bind_ok (branchExists_silent hs repoRoot name)]
  split
  · rfl
  · rfl

theorem add_silent {repoRoot name : Text} (hvalid : Workspace.isValidName name = true) :
    add runner repoRoot name w =
      if (runner (.addition repoRoot name) w.git).1.ok = true then
        .ok ⟨true, Failure.withDetails
            (createdMessage name (Text.ofString "workspaces/" ++ name))
            (runner (.addition repoRoot name) w.git).1.details⟩
          (w.advance runner [.addition repoRoot name])
      else .error (.failure (.addFailed name (runner (.addition repoRoot name) w.git).1.details))
        (w.advance runner [.addition repoRoot name]) := by
  have hpath := Workspace.relativePath?_of_isValidName hvalid
  have hargv := Git.addWorktree?_of_isValidName hvalid
  rw [add, bind_ok (requireSome_of_eq w hpath _), bind_ok (requireSome_of_eq w hargv _),
    bind_ok (say_silent hs (by decide) _), bind_ok (Git.run_silent runner _ _ hs)]
  split
  · rw [if_pos ‹_›]
    rfl
  · rw [if_neg ‹_›]
    rfl

theorem create_of_chosen {repoRoot name : Text} (h : Ready runner cwd w repoRoot)
    (hname : Chosen pool args (InUse runner cwd w repoRoot) name) :
    create runner pool args cwd w =
      (requireFree runner repoRoot (usedThere runner cwd w repoRoot) name >>= fun _ =>
        add runner repoRoot name)
      ((w.advance runner [.toplevel cwd, .listing repoRoot]).withFiles
        (filesAfter runner cwd w)) := by
  have hc : chooseName pool (usedThere runner cwd w repoRoot) args = some name :=
    chooseName_eq_some_iff.mpr
      ((Chosen.congr fun _ => mem_usedThere_iff runner cwd w).mpr hname)
  rw [create_of_ready hs h, hc]
  rfl

/-- Where nothing bars the workspace, the command comes to what the addition comes to. -/
theorem create_of_clear {repoRoot name : Text}
    (h : Clear runner pool args cwd w repoRoot name) :
    create runner pool args cwd w =
      if (additionAnswer runner cwd w repoRoot name).ok = true then
        .ok ⟨true, Failure.withDetails
            (createdMessage name (Text.ofString "workspaces/" ++ name))
            (additionAnswer runner cwd w repoRoot name).details⟩
          ((w.advance runner (creation cwd repoRoot name)).withFiles (filesAfter runner cwd w))
      else
        .error (.failure
            (.addFailed name (additionAnswer runner cwd w repoRoot name).details))
          ((w.advance runner (creation cwd repoRoot name)).withFiles
            (filesAfter runner cwd w)) := by
  have hfree := (mem_usedThere_iff runner cwd w).not.mpr h.free
  have hv : ((w.advance runner [.toplevel cwd, .listing repoRoot]).withFiles
    (filesAfter runner cwd w)).Silent := hs
  have hbranch : ¬ (branchAnswer runner cwd w repoRoot name).ok = true := by simp [h.unbranched]
  have hpass := (requireFree_silent hv repoRoot h.valid hfree).trans (if_neg hbranch)
  rw [create_of_chosen hs h.toReady h.chosen, bind_ok hpass,
    add_silent (hv.advance runner _) h.valid]
  simp only [advance_withFiles, advance_advance]
  rfl

theorem create_of_bar {halt : Halt} {requests : List Request}
    (h : Bar runner pool args cwd w halt requests) :
    create runner pool args cwd w =
      .error halt ((w.advance runner requests).withFiles (filesAfter runner cwd w)) := by
  cases h with
  | noRepository h =>
    have hfiles : filesAfter runner cwd w = w.files := by
      rw [filesAfter, Git.rootOf_eq_none_iff.mpr h]
    rw [create, bind_error (requireRoot_error hs h), hfiles]
    rfl
  | @unwritable repoRoot f hroot h =>
    have hfiles : Workspace.prepare w.files w.cwd repoRoot w.room.directories =
        (.error f, filesAfter runner cwd w) := by
      rw [filesAfter, Git.rootOf_eq_some_iff.mpr hroot, ← h]
    have hprep := Workspace.prepareRoot_error (w := w.advance runner [.toplevel cwd]) hfiles
    rw [create, bind_ok (requireRoot_ok hs hroot), bind_error hprep]
  | @unnamed repoRoot hready h =>
    have hc : chooseName pool (usedThere runner cwd w repoRoot) args = none :=
      chooseName_eq_none_iff.mpr fun name hname =>
        h name ((Chosen.congr fun _ => mem_usedThere_iff runner cwd w).mp hname)
    rw [create_of_ready hs hready, hc]
    rfl
  | @invalid repoRoot name hready hname h =>
    rw [create_of_chosen hs hready hname]
    exact bind_error (bind_error (requireValid_error _ h) _) _
  | @inUse repoRoot name hready hname hvalid h =>
    have hc : (usedThere runner cwd w repoRoot).contains name = true := by
      simpa using (mem_usedThere_iff runner cwd w).mpr h
    have hstop : ∀ v : World σ,
        requireFree runner repoRoot (usedThere runner cwd w repoRoot) name v =
          .error (.failure (.nameInUse name)) v := by
      intro v
      rw [requireFree, bind_ok (requireValid_ok v hvalid)]
      simp only [if_pos hc]
      rfl
    rw [create_of_chosen hs hready hname]
    exact bind_error (hstop _) _
  | @branched repoRoot name hready hname hvalid hfree h =>
    have hv : ((w.advance runner [.toplevel cwd, .listing repoRoot]).withFiles
      (filesAfter runner cwd w)).Silent := hs
    have hstop := (requireFree_silent hv repoRoot hvalid
      ((mem_usedThere_iff runner cwd w).not.mpr hfree)).trans (if_pos h)
    rw [create_of_chosen hs hready hname, bind_error hstop, advance_withFiles, advance_advance]
    rfl

end Silent

end Command

end Paddock
