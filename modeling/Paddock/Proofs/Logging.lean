import Paddock.Command.Perform

/-!
# Logging apart

What a command logs has no influence on what it does. An action is blind if in two worlds that
differ only in their consoles it comes to the same result and leaves worlds that differ only there.
All commands are blind, so what they do can be read off a world whose console is silent, as long as
a debug message can be logged at all. Where it cannot, a command faults before it asks anything.
-/

namespace Paddock

set_option autoImplicit false

namespace Console

variable {env : Environment} {c : Console}

theorem isEnabled_fst (level : Level) :
    (c.isEnabled env level).1 = decide ((c.level.getD (levelOf env)).rank ≤ level.rank) := rfl

@[simp] theorem level_put (level : Level) (x : Text) : (c.put level x).level = c.level := by
  unfold put
  split <;> rfl

@[simp] theorem terminal_put (level : Level) (x : Text) :
    (c.put level x).terminal = c.terminal := by
  unfold put
  split <;> rfl

@[simp] theorem level_afterPainting (style : Style) (message : Text) :
    (c.afterPainting env style message).level = c.level := by
  unfold afterPainting
  split
  · rfl
  · split <;> rfl

@[simp] theorem terminal_afterPainting (style : Style) (message : Text) :
    (c.afterPainting env style message).terminal = c.terminal := by
  unfold afterPainting
  split
  · rfl
  · split <;> rfl

theorem emit_of_hasRoom {room : Bool} (h : Screen.hasRoom env c.terminal = .ok room)
    (level : Level) (message : Text) :
    ∃ d, c.emit env level [] message = .ok d ∧ d.terminal = c.terminal ∧
      d.level = some (c.level.getD (levelOf env)) := by
  have ht : (c.isEnabled env level).2.terminal = c.terminal := rfl
  by_cases he : (c.isEnabled env level).1 = true
  · cases room with
    | false => exact ⟨_, emit_of_not_hasRoom h [] message, rfl, rfl⟩
    | true =>
      refine ⟨((c.isEnabled env level).2.put level
        ((c.isEnabled env level).2.rendered env (levelStyle level) message)).afterPainting env
          (levelStyle level) message, ?_, ?_, ?_⟩
      · simp [emit, he, ht, h, styleOf, bind, Except.bind]
      · rw [terminal_afterPainting, terminal_put, ht]
      · rw [level_afterPainting, level_put]
        rfl
  · rw [Bool.not_eq_true] at he
    exact ⟨_, emit_of_not_enabled he [] message, rfl, rfl⟩

end Console

namespace World

variable {σ ε α β : Type}

/-- A debug message can be logged: it is not shown, or the size of the screen can be read. -/
def CanLog (w : World σ) : Prop :=
  (w.console.isEnabled w.environment .debug).1 = true →
    ∃ room, Screen.hasRoom w.environment w.console.terminal = .ok room

/-- Debug messages are shown, and reading the size of the screen for one is a fault. -/
structure CannotLog (w : World σ) (f : Fault) : Prop where
  shown : (w.console.isEnabled w.environment .debug).1 = true
  unreadable : Screen.hasRoom w.environment w.console.terminal = .error f

theorem CannotLog.not_canLog {w : World σ} {f : Fault} (h : w.CannotLog f) : ¬ w.CanLog := by
  intro hlog
  obtain ⟨room, hroom⟩ := hlog h.shown
  rw [h.unreadable] at hroom
  exact absurd hroom (by simp)

theorem cannotLog_of_not_canLog {w : World σ} (h : ¬ w.CanLog) : ∃ f, w.CannotLog f := by
  simp only [CanLog, Classical.not_imp, not_exists] at h
  obtain ⟨hshown, hroom⟩ := h
  cases hr : Screen.hasRoom w.environment w.console.terminal with
  | ok room => exact absurd hr (hroom room)
  | error f => exact ⟨f, hshown, hr⟩

def Silent (w : World σ) : Prop := w.console.level = some .error

def silence (w : World σ) : World σ :=
  { w with console := { w.console with level := some .error } }

theorem silent_silence (w : World σ) : w.silence.Silent := rfl

theorem Silent.canLog {w : World σ} (h : w.Silent) : w.CanLog := by
  intro he
  rw [Console.isEnabled_fst, h] at he
  simp [Level.rank] at he

/-- Worlds that differ only in their consoles, and in which debug messages can be logged. -/
structure Alike (v w : World σ) : Prop where
  git : v.git = w.git
  files : v.files = w.files
  cwd : v.cwd = w.cwd
  environment : v.environment = w.environment
  requests : v.requests = w.requests
  room : v.room = w.room
  canLog_left : v.CanLog
  canLog_right : w.CanLog

theorem alike_silence {w : World σ} (h : w.CanLog) : w.Alike w.silence :=
  ⟨rfl, rfl, rfl, rfl, rfl, rfl, h, (silent_silence w).canLog⟩

/-- Results that are equal up to the worlds they are reached in, of which `R` holds. -/
def AgreeUpTo (R : World σ → World σ → Prop) :
    EStateM.Result ε (World σ) α → EStateM.Result ε (World σ) α → Prop
  | .ok a v, .ok b w => a = b ∧ R v w
  | .error e v, .error f w => e = f ∧ R v w
  | _, _ => False

/-- The action takes worlds of which `R` holds to such worlds, with the same result. -/
def Respects (R : World σ → World σ → Prop) (m : Action σ ε α) : Prop :=
  ∀ v w, R v w → AgreeUpTo R (m v) (m w)

section Respects

variable {R : World σ → World σ → Prop}

theorem AgreeUpTo.cases {r s : EStateM.Result ε (World σ) α} (h : AgreeUpTo R r s) :
    (∃ a v w, r = .ok a v ∧ s = .ok a w ∧ R v w) ∨
      (∃ e v w, r = .error e v ∧ s = .error e w ∧ R v w) := by
  cases r with
  | ok a v =>
    cases s with
    | ok b w =>
      obtain ⟨rfl, hvw⟩ := h
      exact Or.inl ⟨a, v, w, rfl, rfl, hvw⟩
    | error f w => exact False.elim h
  | error e v =>
    cases s with
    | ok b w => exact False.elim h
    | error f w =>
      obtain ⟨rfl, hvw⟩ := h
      exact Or.inr ⟨e, v, w, rfl, rfl, hvw⟩

theorem bind_ok {m : Action σ ε α} {w v : World σ} {a : α} (h : m w = .ok a v)
    (f : α → Action σ ε β) : (m >>= f) w = f a v := by
  show EStateM.bind m f w = f a v
  simp only [EStateM.bind, h]

theorem bind_error {m : Action σ ε α} {w v : World σ} {e : ε} (h : m w = .error e v)
    (f : α → Action σ ε β) : (m >>= f) w = .error e v := by
  show EStateM.bind m f w = .error e v
  simp only [EStateM.bind, h]

theorem respects_pure (a : α) : Respects R (pure a : Action σ ε α) := fun _ _ h => ⟨rfl, h⟩

theorem respects_throw (e : ε) : Respects R (throw e : Action σ ε α) := fun _ _ h => ⟨rfl, h⟩

theorem respects_bind {m : Action σ ε α} {f : α → Action σ ε β} (hm : Respects R m)
    (hf : ∀ a, Respects R (f a)) : Respects R (m >>= f) := by
  intro v w h
  rcases (hm v w h).cases with ⟨a, v', w', hv, hw, h'⟩ | ⟨e, v', w', hv, hw, h'⟩
  · rw [bind_ok hv, bind_ok hw]
    exact hf a v' w' h'
  · rw [bind_error hv, bind_error hw]
    exact ⟨rfl, h'⟩

theorem respects_ite {p : Prop} [Decidable p] {m n : Action σ ε α} (hm : Respects R m)
    (hn : Respects R n) : Respects R (if p then m else n) := by
  by_cases hp : p
  · rwa [if_pos hp]
  · rwa [if_neg hp]

theorem respects_guard {p : Prop} [Decidable p] {m : Action σ ε Unit} {f : Unit → Action σ ε β}
    (hm : Respects R m) (hf : ∀ a, Respects R (f a)) : Respects R (if p then m >>= f else f ()) :=
  respects_ite (respects_bind hm hf) (hf ())

end Respects

/-- The action does the same in worlds that differ only in their consoles. -/
def Blind (m : Action σ ε α) : Prop := Respects Alike m

section Say

variable [HasFaults ε]

theorem say_of_canLog {w : World σ} (h : w.CanLog) {level : Level}
    (hl : level.rank ≤ Level.debug.rank) (message : Text) :
    ∃ console, (say level message : Action σ ε Unit) w = .ok () { w with console } ∧
      CanLog { w with console } := by
  have hok : ∃ d, w.console.emit w.environment level [] message = .ok d ∧
      d.terminal = w.console.terminal ∧
      d.level = some (w.console.level.getD (Console.levelOf w.environment)) := by
    by_cases he : (w.console.isEnabled w.environment level).1 = true
    · have hd : (w.console.isEnabled w.environment .debug).1 = true := by
        rw [Console.isEnabled_fst, decide_eq_true_eq] at he ⊢
        exact Nat.le_trans he hl
      obtain ⟨room, hroom⟩ := h hd
      exact Console.emit_of_hasRoom hroom level message
    · rw [Bool.not_eq_true] at he
      exact ⟨_, Console.emit_of_not_enabled he [] message, rfl, rfl⟩
  obtain ⟨d, hd, hterminal, hlevel⟩ := hok
  refine ⟨d, by simp only [say, hd], ?_⟩
  intro hen
  rw [hterminal]
  apply h
  rw [Console.isEnabled_fst] at hen ⊢
  simpa [hlevel] using hen

theorem say_of_cannotLog {w : World σ} {f : Fault} (h : w.CannotLog f) (message : Text) :
    (say .debug message : Action σ ε Unit) w = .error (HasFaults.ofFault f) w := by
  have ht : (w.console.isEnabled w.environment .debug).2.terminal = w.console.terminal := rfl
  simp [say, Console.emit, h.shown, ht, h.unreadable, bind, Except.bind]

theorem blind_say {level : Level} (hl : level.rank ≤ Level.debug.rank) (message : Text) :
    Blind (say level message : Action σ ε Unit) := by
  intro v w h
  obtain ⟨c, hv, hc⟩ := say_of_canLog (ε := ε) h.canLog_left hl message
  obtain ⟨d, hw, hd⟩ := say_of_canLog (ε := ε) h.canLog_right hl message
  rw [hv, hw]
  exact ⟨rfl, h.git, h.files, h.cwd, h.environment, h.requests, h.room, hc, hd⟩

theorem say_silent {w : World σ} (h : w.Silent) {level : Level}
    (hl : level.rank ≤ Level.debug.rank) (message : Text) :
    (say level message : Action σ ε Unit) w = .ok () w := by
  have hn : (w.console.isEnabled w.environment level).1 = false := by
    have hlt : level.rank < Level.error.rank := Nat.lt_of_le_of_lt hl (by decide)
    rw [Console.isEnabled_fst, h]
    exact decide_eq_false (Nat.not_le.mpr hlt)
  have hc : (w.console.isEnabled w.environment level).2 = w.console := by
    have hl : w.console.level = some .error := h
    simp only [Console.isEnabled, Console.levelInForce, hl, Option.getD_some]
    rw [← hl]
  simp only [say, Console.emit_of_not_enabled hn, hc]

end Say

end World

end Paddock
