import Paddock.Proofs.Asking

/-!
# Runs in step

Two runs go in step if their worlds differ only in what the streams held before and in what their
consoles remember of it. Commands then do the same in both and write the same. An action that does
nothing but write keeps a world in step with the one it started from.
-/

namespace Paddock

set_option autoImplicit false

namespace Console

variable {env : Environment} {c d e : Console}

/-- Consoles that paint every message alike, whatever levels they write. -/
structure PaintsLike (env : Environment) (c d : Console) : Prop where
  noColour : c.noColour = d.noColour
  terminal : c.terminal = d.terminal
  depth : ∀ depth style, Screen.depth? env c.terminal = some depth →
    c.depthOf depth style = d.depthOf depth style

theorem PaintsLike.trans (h : PaintsLike env c d) (h' : PaintsLike env d e) :
    PaintsLike env c e where
  noColour := h.noColour.trans h'.noColour
  terminal := h.terminal.trans h'.terminal
  depth := fun depth style hd =>
    (h.depth depth style hd).trans (h'.depth depth style (h.terminal ▸ hd))

theorem PaintsLike.symm (h : PaintsLike env c d) : PaintsLike env d c where
  noColour := h.noColour.symm
  terminal := h.terminal.symm
  depth := fun depth style hd => (h.depth depth style (h.terminal ▸ hd)).symm

theorem PaintsLike.brush_eq (h : PaintsLike env c d) (style : Style) :
    c.brush env style = d.brush env style := by
  unfold brush colourDisabled
  rw [← h.terminal, h.noColour]
  split
  · rfl
  · next depth hdepth => rw [h.depth depth style hdepth]

theorem PaintsLike.rendered_eq (h : PaintsLike env c d) (style : Style) (message : Text) :
    c.rendered env style message = d.rendered env style message := by
  rw [rendered, rendered, h.brush_eq]

/-- Consoles that write every message alike. -/
structure WritesLike (env : Environment) (c d : Console) : Prop where
  level : c.level.getD (levelOf env) = d.level.getD (levelOf env)
  noColour : c.noColour = d.noColour
  terminal : c.terminal = d.terminal
  depth : ∀ depth style, Screen.depth? env c.terminal = some depth →
    c.depthOf depth style = d.depthOf depth style

theorem writesLike_refl (env : Environment) (c : Console) : WritesLike env c c :=
  ⟨rfl, rfl, rfl, fun _ _ _ => rfl⟩

theorem WritesLike.paintsLike (h : WritesLike env c d) : PaintsLike env c d :=
  ⟨h.noColour, h.terminal, h.depth⟩

theorem PaintsLike.writesLike (h : PaintsLike env c d)
    (hlevel : c.level.getD (levelOf env) = d.level.getD (levelOf env)) : WritesLike env c d :=
  ⟨hlevel, h.noColour, h.terminal, h.depth⟩

theorem WritesLike.trans (h : WritesLike env c d) (h' : WritesLike env d e) :
    WritesLike env c e :=
  (h.paintsLike.trans h'.paintsLike).writesLike (h.level.trans h'.level)

theorem WritesLike.symm (h : WritesLike env c d) : WritesLike env d c :=
  h.paintsLike.symm.writesLike h.level.symm

theorem writesLike_isEnabled (env : Environment) (level : Level) (c : Console) :
    WritesLike env (c.isEnabled env level).2 c :=
  ⟨rfl, rfl, rfl, fun _ _ _ => rfl⟩

theorem writesLike_put (env : Environment) (level : Level) (x : Text) (c : Console) :
    WritesLike env (c.put level x) c := by
  unfold put
  split <;> exact ⟨rfl, rfl, rfl, fun _ _ _ => rfl⟩

theorem lookup_filter_of_ne {α β : Type} [DecidableEq α] {a b : α} (h : b ≠ a)
    (entries : List (α × β)) :
    (entries.filter (·.1 ≠ a)).lookup b = entries.lookup b := by
  induction entries with
  | nil => rfl
  | cons entry entries ih =>
    obtain ⟨k, value⟩ := entry
    by_cases hk : k = a
    · subst hk
      have hb : (b == k) = false := beq_eq_false_iff_ne.mpr h
      simp [List.lookup_cons, hb, ← ih]
    · simp only [ne_eq, decide_not] at ih
      simp [hk, List.lookup_cons, ih]

/-- Painting a style settles no colours that were not what it is painted in anyway. -/
theorem writesLike_settle {depth : Depth} (hdepth : Screen.depth? env c.terminal = some depth)
    (style : Style) : WritesLike env (c.settle depth style) c where
  level := rfl
  noColour := rfl
  terminal := rfl
  depth := by
    intro other paint hother
    obtain rfl : other = depth := Option.some.inj (hother.symm.trans hdepth)
    by_cases hp : paint = style
    · subst hp
      exact depthOf_settle other other paint c
    · have hb : (paint == style) = false := beq_eq_false_iff_ne.mpr hp
      simp only [settle, depthOf, List.lookup_cons, hb, lookup_filter_of_ne hp]

theorem writesLike_afterPainting (env : Environment) (style : Style) (message : Text)
    (c : Console) : WritesLike env (c.afterPainting env style message) c := by
  unfold afterPainting
  split
  · exact writesLike_refl env c
  · next depth hdepth =>
    split
    · exact writesLike_refl env c
    · exact writesLike_settle hdepth style

theorem WritesLike.isEnabled_eq (h : WritesLike env c d) (level : Level) :
    (c.isEnabled env level).1 = (d.isEnabled env level).1 := by
  rw [isEnabled_fst, isEnabled_fst, h.level]

/-- What both streams of a console are extended by. -/
structure Extended (c d : Console) (out err : Text) : Prop where
  stdout : d.stdout = c.stdout ++ out
  stderr : d.stderr = c.stderr ++ err

theorem extended_refl (c : Console) : Extended c c [] [] :=
  ⟨(List.append_nil _).symm, (List.append_nil _).symm⟩

theorem extended_isEnabled (env : Environment) (level : Level) (c : Console) :
    Extended c (c.isEnabled env level).2 [] [] :=
  ⟨(List.append_nil _).symm, (List.append_nil _).symm⟩

theorem Extended.trans {out err out' err' : Text} (h : Extended c d out err)
    (h' : Extended d e out' err') : Extended c e (out ++ out') (err ++ err') where
  stdout := by rw [h'.stdout, h.stdout, List.append_assoc]
  stderr := by rw [h'.stderr, h.stderr, List.append_assoc]

def shares (level : Level) (x : Text) : Text × Text := if level.toStdout then (x, []) else ([], x)

theorem extended_put (level : Level) (x : Text) (c : Console) :
    Extended c (c.put level x) (shares level x).1 (shares level x).2 := by
  unfold put shares
  split <;> constructor <;> simp [writeStdout, writeStderr]

theorem stdout_afterPainting (style : Style) (message : Text) (c : Console) :
    (c.afterPainting env style message).stdout = c.stdout := by
  unfold afterPainting
  split
  · rfl
  · split <;> rfl

theorem stderr_afterPainting (style : Style) (message : Text) (c : Console) :
    (c.afterPainting env style message).stderr = c.stderr := by
  unfold afterPainting
  split
  · rfl
  · split <;> rfl

/-- The console after a message in its level's own style. -/
def told (env : Environment) (level : Level) (message : Text) (c : Console) : Console :=
  (c.put level (c.rendered env (levelStyle level) message)).afterPainting env (levelStyle level)
    message

theorem writesLike_told (env : Environment) (level : Level) (message : Text) (c : Console) :
    WritesLike env (c.told env level message) c :=
  (writesLike_afterPainting env _ message _).trans (writesLike_put env level _ c)

theorem extended_told (env : Environment) (level : Level) (message : Text) (c : Console) :
    Extended c (c.told env level message)
      (shares level (c.rendered env (levelStyle level) message)).1
      (shares level (c.rendered env (levelStyle level) message)).2 := by
  have hput := extended_put level (c.rendered env (levelStyle level) message) c
  exact ⟨(stdout_afterPainting _ _ _).trans hput.stdout,
    (stderr_afterPainting _ _ _).trans hput.stderr⟩

theorem emit_eq (level : Level) (message : Text) (c : Console) :
    c.emit env level [] message =
      if (c.isEnabled env level).1 then
        (Screen.hasRoom env c.terminal).map fun room =>
          if room then (c.isEnabled env level).2.told env level message
          else (c.isEnabled env level).2
      else .ok (c.isEnabled env level).2 := by
  have ht : (c.isEnabled env level).2.terminal = c.terminal := rfl
  by_cases he : (c.isEnabled env level).1 = true
  · cases hr : Screen.hasRoom env c.terminal with
    | error f => simp [emit, he, ht, hr, bind, Except.bind, Except.map]
    | ok room =>
      cases room <;> simp [emit, he, ht, hr, styleOf, told, bind, Except.bind, Except.map]
  · simp [emit, he]

/-- Consoles that write alike write the same, and write alike after it. -/
theorem emit_both (h : WritesLike env c d) (level : Level) (message : Text) :
    (∃ f, c.emit env level [] message = .error f ∧ d.emit env level [] message = .error f) ∨
      ∃ c' d' out err, c.emit env level [] message = .ok c' ∧
        d.emit env level [] message = .ok d' ∧ WritesLike env c' d' ∧ WritesLike env c' c ∧
        Extended c c' out err ∧ Extended d d' out err := by
  have hc := writesLike_isEnabled env level c
  have hd := writesLike_isEnabled env level d
  have hlike := (hc.trans h).trans hd.symm
  rw [emit_eq, emit_eq, ← h.isEnabled_eq, ← h.terminal]
  by_cases he : (c.isEnabled env level).1 = true
  · simp only [he, if_true]
    cases Screen.hasRoom env c.terminal with
    | error f => exact .inl ⟨f, rfl, rfl⟩
    | ok room =>
      right
      cases room with
      | false =>
        exact ⟨_, _, [], [], rfl, rfl, hlike, hc, extended_isEnabled env level c,
          extended_isEnabled env level d⟩
      | true =>
        have hcTold := writesLike_told env level message (c.isEnabled env level).2
        have hdTold := writesLike_told env level message (d.isEnabled env level).2
        have hcExt := extended_told env level message (c.isEnabled env level).2
        have hdExt := extended_told env level message (d.isEnabled env level).2
        rw [← hlike.paintsLike.rendered_eq] at hdExt
        exact ⟨_, _, _, _, rfl, rfl, (hcTold.trans hlike).trans hdTold.symm, hcTold.trans hc,
          ⟨hcExt.stdout, hcExt.stderr⟩, ⟨hdExt.stdout, hdExt.stderr⟩⟩
  · simp only [he]
    exact .inr ⟨_, _, [], [], rfl, rfl, hlike, hc, extended_isEnabled env level c,
      extended_isEnabled env level d⟩

end Console

namespace World

variable {σ ε α β : Type} {u v w v₀ w₀ : World σ}

/-- Worlds in which every line does the same and writes the same. -/
structure Akin (v w : World σ) : Prop where
  git : v.git = w.git
  files : v.files = w.files
  cwd : v.cwd = w.cwd
  environment : v.environment = w.environment
  room : v.room = w.room
  console : Console.WritesLike v.environment v.console w.console

theorem akin_refl (w : World σ) : Akin w w :=
  ⟨rfl, rfl, rfl, rfl, rfl, Console.writesLike_refl _ _⟩

theorem Akin.trans (h : Akin u v) (h' : Akin v w) : Akin u w where
  git := h.git.trans h'.git
  files := h.files.trans h'.files
  cwd := h.cwd.trans h'.cwd
  environment := h.environment.trans h'.environment
  room := h.room.trans h'.room
  console := h.console.trans (h.environment ▸ h'.console)

/-- What came to a world: text on both streams, and requests. -/
structure Grew (v w : World σ) (out err : Text) (made : List Request) : Prop where
  console : Console.Extended v.console w.console out err
  requests : w.requests = v.requests ++ made

theorem grew_refl (w : World σ) : Grew w w [] [] [] :=
  ⟨Console.extended_refl _, (List.append_nil _).symm⟩

theorem Grew.trans {out err out' err' : Text} {made made' : List Request}
    (h : Grew u v out err made) (h' : Grew v w out' err' made') :
    Grew u w (out ++ out') (err ++ err') (made ++ made') where
  console := h.console.trans h'.console
  requests := by rw [h'.requests, h.requests, List.append_assoc]

/-- Two runs in step: one came from `v₀` to `v` and the other from `w₀` to `w`, and the same has
been added on the way. -/
structure InStep (v₀ w₀ v w : World σ) : Prop where
  akin : Akin v w
  grew : ∃ out err made, Grew v₀ v out err made ∧ Grew w₀ w out err made

theorem Akin.inStep (h : Akin v w) : InStep v w v w :=
  ⟨h, [], [], [], grew_refl v, grew_refl w⟩

theorem respects_say [HasFaults ε] (v₀ w₀ : World σ) (level : Level) (message : Text) :
    Respects (InStep v₀ w₀) (say level message : Action σ ε Unit) := by
  intro v w h
  obtain ⟨hakin, out, err, made, hv, hw⟩ := h
  have hboth := Console.emit_both hakin.console level message
  unfold say
  rw [hakin.environment] at hboth ⊢
  rcases hboth with ⟨f, hc, hd⟩ | ⟨c', d', out', err', hc, hd, hlike, -, hce, hde⟩
  · simp only [hc, hd]
    exact ⟨rfl, hakin, out, err, made, hv, hw⟩
  · simp only [hc, hd]
    refine ⟨rfl, ⟨hakin.git, hakin.files, hakin.cwd, rfl, hakin.room, hlike⟩, out ++ out',
      err ++ err', made, ⟨hv.console.trans hce, hv.requests⟩, ⟨hw.console.trans hde, hw.requests⟩⟩

theorem steady_inStep (v₀ w₀ : World σ) (runner : Runner σ) : Steady (InStep v₀ w₀) runner where
  git h := h.akin.git
  files h := h.akin.files
  cwd h := h.akin.cwd
  room h := h.akin.room
  advance request h := by
    obtain ⟨hakin, out, err, made, hv, hw⟩ := h
    exact ⟨⟨congrArg (runner.after · [request]) hakin.git, hakin.files, hakin.cwd,
      hakin.environment, hakin.room, hakin.console⟩, out, err, made ++ [request],
      ⟨hv.console, by simp [advance, hv.requests]⟩, ⟨hw.console, by simp [advance, hw.requests]⟩⟩
  withFiles files h := by
    obtain ⟨hakin, out, err, made, hv, hw⟩ := h
    exact ⟨⟨hakin.git, rfl, hakin.cwd, hakin.environment, hakin.room, hakin.console⟩, out, err,
      made, ⟨hv.console, hv.requests⟩, ⟨hw.console, hw.requests⟩⟩
  say := fun _ message => respects_say v₀ w₀ _ message

structure Spoke (v w : World σ) : Prop where
  akin : Akin w v
  grew : ∃ out err, Grew v w out err []

theorem spoke_refl (w : World σ) : Spoke w w := ⟨akin_refl w, [], [], grew_refl w⟩

theorem Spoke.trans (h : Spoke u v) (h' : Spoke v w) : Spoke u w := by
  obtain ⟨hakin, out, err, hgrew⟩ := h
  obtain ⟨hakin', out', err', hgrew'⟩ := h'
  exact ⟨hakin'.trans hakin, _, _, hgrew.trans hgrew'⟩

theorem Spoke.requests_eq (h : Spoke v w) : w.requests = v.requests := by
  obtain ⟨_, _, _, hgrew⟩ := h
  rw [hgrew.requests, List.append_nil]

/-- The action does nothing but write. -/
def Speaks (m : Action σ ε α) : Prop := ∀ w, Spoke w (worldAfter m w)

theorem speaks_pure (a : α) : Speaks (pure a : Action σ ε α) := fun w => spoke_refl w

theorem speaks_throw (e : ε) : Speaks (throw e : Action σ ε α) := fun w => spoke_refl w

theorem speaks_get : Speaks (get : Action σ ε (World σ)) := fun w => spoke_refl w

theorem speaks_bind {m : Action σ ε α} {f : α → Action σ ε β} (hm : Speaks m)
    (hf : ∀ a, Speaks (f a)) : Speaks (m >>= f) := by
  intro w
  have hw := hm w
  cases h : m w with
  | ok a v =>
    rw [worldAfter_of_ok h] at hw
    rw [worldAfter, bind_ok h, ← worldAfter]
    exact hw.trans (hf a v)
  | error e v =>
    rw [worldAfter_of_error h] at hw
    rw [worldAfter_of_error (bind_error h f)]
    exact hw

theorem speaks_say [HasFaults ε] (level : Level) (message : Text) :
    Speaks (say level message : Action σ ε Unit) := by
  intro w
  have hboth := Console.emit_both (Console.writesLike_refl w.environment w.console) level message
  rcases hboth with ⟨f, hc, -⟩ | ⟨c, _, out, err, hc, -, -, hlike, hext, -⟩
  · rw [worldAfter, say, hc]
    exact spoke_refl w
  · rw [worldAfter, say, hc]
    exact ⟨⟨rfl, rfl, rfl, rfl, rfl, hlike⟩, out, err, hext, (List.append_nil _).symm⟩

theorem say_of_hasRoom [HasFaults ε] {room : Bool}
    (h : Screen.hasRoom w.environment w.console.terminal = .ok room) (level : Level)
    (message : Text) :
    ∃ console, (say level message : Action σ ε Unit) w = .ok () { w with console } ∧
      console.terminal = w.console.terminal := by
  obtain ⟨console, hemit, hterminal, -⟩ := Console.emit_of_hasRoom h level message
  refine ⟨console, ?_, hterminal⟩
  simp only [say, hemit]

theorem exists_ok_of_isOk {m : Action σ ε α} (h : (resultOf m w).isOk = true) :
    ∃ a v, m w = .ok a v := by
  cases hr : resultOf m w with
  | ok a => exact ⟨a, _, eq_ok_of_resultOf hr⟩
  | error e => simp [hr, Except.isOk, Except.toBool] at h

end World

end Paddock
