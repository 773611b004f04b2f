import Paddock.Proofs.Keeper

/-!
# The ledger of workspaces

A ledger says which workspaces there are and which names have ever been given. From the ledger and
the repository as it was at first follows what every command comes to; what it comes to is recorded.
A name is never given twice, since its branch stays when the workspace goes.
-/

namespace Paddock

set_option autoImplicit false

open Text (slash newline)

namespace Repository

variable {r : Repository}

def checkedOut (r : Repository) : List Text := r.checkouts.filterMap Checkout.branch

/-- A repository without workspaces, whose paths are absolute and tidy. -/
structure Fit (r : Repository) : Prop extends Printable r where
  absolute : r.root.head? = some slash
  tidy : Path.Tidy r.root
  line : newline ∉ r.root
  places : ∀ c ∈ r.checkouts, c.path.head? = some slash ∧ Path.Tidy c.path
  outside : ∀ c ∈ r.checkouts, ¬ r.root ++ Text.ofString "/workspaces/" <+: c.path
  known : ∀ c ∈ r.checkouts, ∀ b, c.branch = some b → b ∈ r.branches

theorem Fit.root_ne_nil (h : r.Fit) : r.root ≠ [] := by
  intro he
  have habs := h.absolute
  simp [he] at habs

end Repository

/-- Which workspaces there are, and all names that have been given. -/
structure Ledger where
  live : List Text := []
  made : List Text := []
deriving DecidableEq, Repr

inductive Verdict where
  | created (name : Text)
  | removed (name : Text)
  | refused (f : Failure)
  | notFound (name : Text)
  | listed (names : List Text)
  | answered (reply : Command.Reply)
deriving DecidableEq, Repr

namespace Verdict

/-- What is replied; git may add something of its own to the outcome of a change. -/
def Fits : Verdict → Command.Reply → Prop
  | created name, reply => reply.ok = true ∧ ∃ details, reply.message = Failure.withDetails
      (Command.createdMessage name (Text.ofString "workspaces/" ++ name)) details
  | removed name, reply => reply.ok = true ∧ ∃ details, reply.message = Failure.withDetails
      (Command.removedMessage name (Text.ofString "workspaces/" ++ name)) details
  | refused f, reply => reply = ⟨false, f.message⟩
  | notFound name, reply => reply.ok = false ∧
      ∃ details, reply.message = (Failure.removeFailed name details).message
  | listed names, reply => reply = ⟨true, Command.listing (Text.sortedSet names)⟩
  | answered own, reply => reply = own

end Verdict

structure Call where
  command : Text
  args : List Text
  pool : List Text
  cwd : Place
deriving DecidableEq, Repr

namespace Ledger

variable (r : Repository) (l : Ledger)

def taken : List Text := l.live ++ r.checkedOut

def choice (pool args : List Text) : Option Text :=
  match args with
  | name :: _ => some name
  | [] => pool.find? fun name => Workspace.isValidName name && !(l.taken r).contains name

def creation (pool args : List Text) : Verdict :=
  match l.choice r pool args with
  | none => .refused .poolExhausted
  | some name =>
    if Workspace.isValidName name = false then .refused .nameInvalid
    else if name ∈ l.taken r then .refused (.nameInUse name)
    else if name ∈ r.branches ++ l.made then .refused (.branchExists name)
    else .created name

def removal (args : List Text) : Verdict :=
  match args with
  | [] => .refused .nameMissing
  | name :: _ =>
    if Workspace.isValidName name = false then .refused .nameInvalid
    else if name ∈ l.live then .removed name
    else .notFound name

def verdict (c : Call) : Verdict :=
  if c.command = "create" then l.creation r c.pool c.args
  else if c.command = "destroy" then l.removal c.args
  else if c.command = "list" then .listed l.live
  else .answered (Command.ownReply c.command c.args)

def record : Verdict → Ledger
  | .created name => ⟨name :: l.live, name :: l.made⟩
  | .removed name => { l with live := l.live.filter (· ≠ name) }
  | _ => l

/-- The verdicts on calls one after another, and the ledger at the end. -/
def run (l : Ledger) : List Call → List Verdict × Ledger
  | [] => ([], l)
  | c :: rest =>
    let v := l.verdict r c
    let (verdicts, final) := run (l.record v) rest
    (v :: verdicts, final)

/-- No workspace is there twice, and no name was given twice or to a branch of old. -/
structure Sound : Prop where
  live_nodup : l.live.Nodup
  made_nodup : l.made.Nodup
  live_made : ∀ name ∈ l.live, name ∈ l.made
  valid : ∀ name ∈ l.made, Workspace.isValidName name = true
  fresh : ∀ name ∈ l.made, name ∉ r.branches

theorem sound_empty : Sound r {} := by
  constructor <;> simp

variable {r l}

theorem creation_eq_created {pool args : List Text} {name : Text}
    (h : l.creation r pool args = .created name) :
    l.choice r pool args = some name ∧ Workspace.isValidName name = true ∧ name ∉ l.taken r ∧
      name ∉ r.branches ∧ name ∉ l.made := by
  unfold creation at h
  split at h
  · exact absurd h (by simp)
  · rename_i chosen hchoice
    split at h
    · exact absurd h (by simp)
    rename_i hvalid
    split at h
    · exact absurd h (by simp)
    rename_i htaken
    split at h
    · exact absurd h (by simp)
    rename_i hbranch
    obtain rfl := Verdict.created.inj h
    rw [List.mem_append, not_or] at hbranch
    exact ⟨hchoice, by simpa using hvalid, htaken, hbranch.1, hbranch.2⟩

theorem verdict_eq_created {c : Call} {name : Text} (h : l.verdict r c = .created name) :
    c.command = "create" ∧ l.creation r c.pool c.args = .created name := by
  unfold verdict at h
  split at h
  · exact ⟨‹_›, h⟩
  split at h
  · unfold removal at h
    split at h
    · exact absurd h (by simp)
    split at h
    · exact absurd h (by simp)
    split at h
    · exact absurd h (by simp)
    · exact absurd h (by simp)
  split at h
  · exact absurd h (by simp)
  · exact absurd h (by simp)

theorem Sound.record (h : l.Sound r) (c : Call) : (l.record (l.verdict r c)).Sound r := by
  cases hv : l.verdict r c with
  | created name =>
    obtain ⟨_, hcreation⟩ := verdict_eq_created hv
    obtain ⟨_, hvalid, htaken, hbranch, hmade⟩ := creation_eq_created hcreation
    have hlive : name ∉ l.live := fun hm => hmade (h.live_made name hm)
    constructor
    case live_nodup => exact List.nodup_cons.mpr ⟨hlive, h.live_nodup⟩
    case made_nodup => exact List.nodup_cons.mpr ⟨hmade, h.made_nodup⟩
    case live_made =>
      intro other ho
      rcases List.mem_cons.mp ho with rfl | ho
      · exact List.mem_cons_self
      · exact List.mem_cons_of_mem name (h.live_made other ho)
    case valid =>
      intro other ho
      rcases List.mem_cons.mp ho with rfl | ho
      · exact hvalid
      · exact h.valid other ho
    case fresh =>
      intro other ho
      rcases List.mem_cons.mp ho with rfl | ho
      · exact hbranch
      · exact h.fresh other ho
  | removed name =>
    refine ⟨h.live_nodup.filter _, h.made_nodup, ?_, h.valid, h.fresh⟩
    intro other ho
    exact h.live_made other (List.mem_filter.mp ho).1
  | refused f => exact h
  | notFound name => exact h
  | listed names => exact h
  | answered reply => exact h

/-- A workspace of this name was created and not removed since. -/
def Stands (name : Text) (verdicts : List Verdict) : Prop :=
  ∃ before after, verdicts = before ++ .created name :: after ∧ .removed name ∉ after

theorem stands_cons_iff {name : Text} {v : Verdict} {verdicts : List Verdict} :
    Stands name (v :: verdicts) ↔
      v = .created name ∧ .removed name ∉ verdicts ∨ Stands name verdicts := by
  constructor
  · intro h
    obtain ⟨before, after, heq, hafter⟩ := h
    cases before with
    | nil =>
      obtain ⟨rfl, rfl⟩ := List.cons.inj heq
      exact .inl ⟨rfl, hafter⟩
    | cons first before =>
      obtain ⟨rfl, rfl⟩ := List.cons.inj heq
      exact .inr ⟨before, after, rfl, hafter⟩
  · intro h
    rcases h with ⟨rfl, hafter⟩ | ⟨before, after, rfl, hafter⟩
    · exact ⟨[], verdicts, rfl, hafter⟩
    · exact ⟨v :: before, after, rfl, hafter⟩

theorem run_eq_foldl (calls : List Call) :
    (l.run r calls).2 = (l.run r calls).1.foldl record l := by
  induction calls generalizing l with
  | nil => rfl
  | cons c rest ih => exact ih

theorem mem_live_foldl_iff {name : Text} (verdicts : List Verdict) :
    name ∈ (verdicts.foldl record l).live ↔
      name ∈ l.live ∧ .removed name ∉ verdicts ∨ Stands name verdicts := by
  induction verdicts generalizing l with
  | nil => simp [Stands]
  | cons v verdicts ih =>
    rw [List.foldl_cons, ih, stands_cons_iff, ← or_assoc]
    apply or_congr_left
    cases v with
    | created other =>
      simp only [record, List.mem_cons, Verdict.created.injEq, reduceCtorEq, false_or, or_and_right]
      rw [or_comm, eq_comm]
    | removed other =>
      by_cases ho : other = name
      · simp [record, ho]
      · simp [record, Ne.symm ho]
    | refused f => simp [record]
    | notFound other => simp [record]
    | listed names => simp [record]
    | answered reply => simp [record]

theorem mem_live_run_iff {name : Text} (calls : List Call) :
    name ∈ (run r {} calls).2.live ↔ Stands name (run r {} calls).1 := by
  rw [run_eq_foldl, mem_live_foldl_iff]
  simp

theorem mem_made_foldl_iff {name : Text} (verdicts : List Verdict) :
    name ∈ (verdicts.foldl record l).made ↔ name ∈ l.made ∨ .created name ∈ verdicts := by
  induction verdicts generalizing l with
  | nil => simp
  | cons v verdicts ih =>
    rw [List.foldl_cons, ih, List.mem_cons]
    cases v with
    | created other =>
      simp only [record, List.mem_cons, Verdict.created.injEq, or_assoc]
      exact or_left_comm
    | _ => simp [record]

theorem mem_made_run_iff {name : Text} (calls : List Call) :
    name ∈ (run r {} calls).2.made ↔ .created name ∈ (run r {} calls).1 := by
  rw [run_eq_foldl, mem_made_foldl_iff]
  simp

end Ledger

end Paddock
