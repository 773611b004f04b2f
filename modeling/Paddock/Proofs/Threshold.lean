import Mathlib.Data.List.TakeWhile
import Paddock.Console.Steps
import Paddock.Proofs.Faults
import Paddock.Proofs.InStep
import Paddock.Proofs.Lowering

/-!
# Which messages are written

The level in force is the last one that was set. Where none was, it is the one that the environment
named when the level was first consulted, by whichever step. What a message comes to then depends on
its own level and on whether there is room for it; its style decides only what stands around its
pieces, unless it cannot be read.
-/

namespace Paddock

set_option autoImplicit false

namespace Level

/-- What a setting is taken for. -/
inductive Names : Option Text → Level → Prop where
  | own {x : Text} {level : Level} (h : Text.lower (Text.trim x) = level.name) :
    Names (some x) level
  | warn {x : Text} (h : Text.lower (Text.trim x) = Text.ofString "warn") : Names (some x) .warning
  | unknown {x : Text} (hown : ∀ level : Level, Text.lower (Text.trim x) ≠ level.name)
      (hwarn : Text.lower (Text.trim x) ≠ Text.ofString "warn") : Names (some x) .info
  | unset : Names none .info

def named (setting : Option Text) : Level := (setting.bind ofText?).getD standard

theorem names_named (setting : Option Text) : Names setting (named setting) := by
  unfold named
  cases setting with
  | none => exact .unset
  | some x =>
    rw [Option.bind_some]
    unfold ofText?
    simp only []
    split
    · exact .warn ‹_›
    rename_i hwarn
    cases hfind : all.find? fun level => level.name == Text.lower (Text.trim x) with
    | some level =>
      have hname := List.find?_some hfind
      exact .own (eq_of_beq hname).symm
    | none =>
      refine .unknown ?_ hwarn
      intro level hname
      have hno := List.find?_eq_none.mp hfind level level.mem_all
      exact hno (by simp [hname])

end Level

namespace Screen

variable {env : Environment} {terminal : Bool}

/-- The screen was given no columns. A dumb terminal that was not given its lines goes by columns of
its own. -/
structure Columnless (env : Environment) (terminal : Bool) : Prop where
  columns : dimension? env "COLUMNS" = .ok (some 0)
  lines : ∃ lines, dimension? env "LINES" = .ok lines ∧
    (lines = none → isDumb env terminal = false)

theorem hasRoom_eq_false_iff : hasRoom env terminal = .ok false ↔ Columnless env terminal := by
  unfold hasRoom
  cases hcolumns : dimension? env "COLUMNS" with
  | error f =>
    refine iff_of_false nofun fun h => ?_
    exact nomatch hcolumns.symm.trans h.columns
  | ok columns =>
    cases hlines : dimension? env "LINES" with
    | error f =>
      refine iff_of_false nofun fun h => ?_
      obtain ⟨lines, hok, -⟩ := h.lines
      exact nomatch hlines.symm.trans hok
    | ok lines =>
      have hroom : (columns != some 0 || (lines.isNone && isDumb env terminal)) = false ↔
          columns = some 0 ∧ (lines = none → isDumb env terminal = false) := by
        cases lines <;> simp
      simp only [bind, Except.bind, Except.ok.injEq, hroom]
      constructor
      · rintro ⟨rfl, hdumb⟩
        exact ⟨hcolumns, lines, hlines, hdumb⟩
      · rintro ⟨hzero, other, hother, hdumb⟩
        obtain rfl := Except.ok.inj (hlines.symm.trans hother)
        exact ⟨Except.ok.inj (hcolumns.symm.trans hzero), hdumb⟩

end Screen

theorem exists_of_mapM_eq_error {ε α β : Type} {g : α → Except ε β} {xs : List α} {e : ε}
    (h : xs.mapM g = .error e) : ∃ x ∈ xs, g x = .error e := by
  induction xs with
  | nil => exact nomatch h
  | cons x xs ih =>
    cases hx : g x with
    | error e' =>
      obtain rfl : e' = e := by simpa [List.mapM_cons, hx, bind, Except.bind] using h
      exact ⟨x, List.mem_cons_self, hx⟩
    | ok y =>
      cases hxs : xs.mapM g with
      | error e' =>
        obtain rfl : e' = e := by simpa [List.mapM_cons, hx, hxs, bind, Except.bind] using h
        obtain ⟨x', hmem, hx'⟩ := ih hxs
        exact ⟨x', List.mem_cons_of_mem x hmem, hx'⟩
      | ok ys => simp [List.mapM_cons, hx, hxs, bind, Except.bind, pure, Except.pure] at h

namespace Style

variable {word definition : Text} {words : List Text} {style : Style} {f : Fault}

/-- A word mixes a colour of components one of which is no numeral. -/
def Mismixed (word : Text) (f : Fault) : Prop := ∃ inner component,
  Colour.enclosed? (Text.ofString "rgb") (Text.lower word) = some inner ∧
    component ∈ Text.splitAt (.char ',') inner ∧ Numeral.read component = .error f

theorem mismixed_of_ofText (h : Colour.ofText word = .error f) : Mismixed word f := by
  unfold Colour.ofText at h
  simp only [] at h
  split at h
  · exact nomatch h
  unfold Colour.ofComponents at h
  split at h
  · exact nomatch h
  rename_i inner hinner
  simp only [] at h
  split at h
  · cases hread : (Text.splitAt (.char ',') inner).mapM Numeral.read with
    | ok numbers => simp [hread, bind, Except.bind] at h
    | error g =>
      obtain rfl : g = f := by simpa [hread, bind, Except.bind] using h
      obtain ⟨component, hmem, hcomponent⟩ := exists_of_mapM_eq_error hread
      exact ⟨inner, component, hinner, hmem, hcomponent⟩
  · exact nomatch h

theorem mismixed_lower_iff : Mismixed (Text.lower word) f ↔ Mismixed word f := by
  rw [Mismixed, Mismixed, Text.lower_lower]

theorem mismixed_of_ofWords (h : ofWords style words = .error f) :
    ∃ word ∈ words, Mismixed word f := by
  -- by recursion on the words of a definition
  have hlater {front rest : List Text} (hrest : ∃ word ∈ rest, Mismixed word f) :
      ∃ word ∈ front ++ rest, Mismixed word f := by
    obtain ⟨word, hword, hmixed⟩ := hrest
    exact ⟨word, List.mem_append_right front hword, hmixed⟩
  fun_induction ofWords style words with
  | case3 _ _ _ _ next _ g hcolour =>
    obtain rfl := Except.error.inj h
    exact ⟨next, by simp, mismixed_of_ofText hcolour⟩
  | case12 _ word _ _ _ _ _ _ g hcolour =>
    obtain rfl := Except.error.inj h
    exact ⟨word, by simp, mismixed_lower_iff.mp (mismixed_of_ofText hcolour)⟩
  | case5 _ word _ _ next rest _ _ ih => exact @hlater [word, next] rest (ih h)
  | case8 _ word _ _ _ next rest _ _ ih => exact @hlater [word, next] rest (ih h)
  | case10 _ word _ _ _ _ next rest ih => exact @hlater [word, next] rest (ih h)
  | case11 _ word rest _ _ _ _ _ _ ih => exact @hlater [word] rest (ih h)
  | case14 _ word rest _ _ _ _ _ _ _ ih => exact @hlater [word] rest (ih h)
  | _ => exact nomatch h

/-- A definition has such a word, be it by what its name stands for. -/
def Miswritten (definition : Text) (f : Fault) : Prop :=
  ∃ word ∈ Text.fields (Theme.standard.define definition), Mismixed word f

theorem miswritten_of_ofText (h : ofText definition = .error f) : Miswritten definition f := by
  unfold ofText at h
  cases hread : ofWords plain (Text.fields (Theme.standard.define definition)) with
  | ok style => simp [hread, bind, Except.bind] at h
  | error g =>
    obtain rfl : g = f := by simpa [hread, bind, Except.bind] using h
    exact mismixed_of_ofWords hread

/-- Puts a text that is not empty between two escape sequences, or between nothing. -/
def IsBrush (paint : Text → Text) : Prop :=
  ∃ opening closing, paint [] = [] ∧ (∀ x ≠ [], paint x = opening ++ x ++ closing) ∧
    (opening = [] ∧ closing = [] ∨ ∃ codes : List Nat,
      opening = escape :: .char '[' :: Text.joinWith [.char ';'] (codes.map Text.ofNat) ++
        [.char 'm'] ∧
      closing = escape :: Text.ofString "[0m")

theorem isBrush_id : IsBrush id :=
  ⟨[], [], rfl, fun x _ => by simp, .inl ⟨rfl, rfl⟩⟩

theorem isBrush_paint (depth : Depth) (style : Style) : IsBrush (style.paint depth) := by
  by_cases hcodes : style.codes depth = []
  · exact ⟨[], [], by simp [paint], fun x _ => by simp [paint, hcodes], .inl ⟨rfl, rfl⟩⟩
  · refine ⟨_, _, by simp [paint], fun x hx => ?_, .inr ⟨style.codes depth, rfl, rfl⟩⟩
    simp [paint, hcodes, hx]

end Style

namespace Console

variable {env : Environment} {terminal : Bool} {threshold level : Level}
  {definition message : Text} {history : List Step} {step : Step} {c d : Console} {s : Setting}

theorem isBrush_brush (env : Environment) (style : Style) (c : Console) :
    Style.IsBrush (c.brush env style) := by
  unfold brush
  split
  · exact Style.isBrush_id
  · split
    · exact Style.isBrush_paint _ _
    · exact Style.isBrush_paint _ _

namespace Step

def setting? : Step → Option (Option Text)
  | .setLevel setting => some setting
  | _ => none

def consults : Step → Bool
  | .askLevel | .askEnabled _ | .emit .. => true
  | _ => false

def alter (step : Step) (env : Environment) : Environment :=
  match step with
  | .setVariable name value => env.set name value
  | _ => env

end Step

def environmentAfter (env : Environment) (history : List Step) : Environment :=
  history.foldl (fun env step => step.alter env) env

theorem environmentAfter_concat (env : Environment) (history : List Step) (step : Step) :
    environmentAfter env (history ++ [step]) = step.alter (environmentAfter env history) := by
  simp [environmentAfter, List.foldl_append]

/-- The last setting that was made, or else what the variable held when the level was first
consulted; what it holds now, if the level was not. -/
def settingInForce (env : Environment) (history : List Step) : Option Text :=
  (history.reverse.findSome? Step.setting?).getD
    ((environmentAfter env (history.takeWhile fun step => !step.consults)).get? levelVariable)

/-- The message as it is written, once and with a line feed at its end. -/
def Writes (message x : Text) : Prop := ∃ paint, Style.IsBrush paint ∧
  x = Text.unlines ((Text.lines (shown message)).map fun line =>
    (Text.tabPieces line).flatMap paint) ++ [Text.newline]

/-- What a message comes to. -/
inductive Emits (env : Environment) (terminal : Bool) (threshold level : Level)
    (definition message : Text) : Except Fault Answer → Prop where
  | silent (h : level.rank < threshold.rank) :
    Emits env terminal threshold level definition message (.ok (.written [] []))
  | roomless (h : threshold.rank ≤ level.rank) (hroom : Screen.Columnless env terminal) :
    Emits env terminal threshold level definition message (.ok (.written [] []))
  | unreadable {f : Fault} (h : threshold.rank ≤ level.rank)
      (hroom : Screen.hasRoom env terminal = .error f)
      (hsize : Screen.Unreadable env "COLUMNS" f ∨ Screen.Unreadable env "LINES" f ∨
        ∃ digits, f = .integerTooLong digits ∧ Text.digitLimit < digits) :
    Emits env terminal threshold level definition message (.error f)
  | unstyled {f : Fault} (h : threshold.rank ≤ level.rank)
      (hroom : Screen.hasRoom env terminal = .ok true) (hown : definition ≠ [])
      (hstyle : styleOf level definition message = .error f)
      (hword : Style.Miswritten definition f) :
    Emits env terminal threshold level definition message (.error f)
  | stdout {style : Style} {x : Text} (h : threshold.rank ≤ level.rank)
      (hroom : Screen.hasRoom env terminal = .ok true)
      (hstyle : styleOf level definition message = .ok style)
      (hstream : level = .info ∨ level = .success) (hx : Writes message x) :
    Emits env terminal threshold level definition message (.ok (.written x []))
  | stderr {style : Style} {x : Text} (h : threshold.rank ≤ level.rank)
      (hroom : Screen.hasRoom env terminal = .ok true)
      (hstyle : styleOf level definition message = .ok style)
      (hstream : level ≠ .info ∧ level ≠ .success) (hx : Writes message x) :
    Emits env terminal threshold level definition message (.ok (.written [] x))

/-- The answer of a step, where `threshold` is the level in force. -/
inductive Tells (env : Environment) (terminal : Bool) (threshold : Level) :
    Step → Except Fault Answer → Prop where
  | setLevel {setting : Option Text} {level : Level} (h : Level.Names setting level) :
    Tells env terminal threshold (.setLevel setting) (.ok (.level level))
  | askLevel : Tells env terminal threshold .askLevel (.ok (.level threshold))
  | askEnabled (level : Level) : Tells env terminal threshold (.askEnabled level)
      (.ok (.enabled (decide (threshold.rank ≤ level.rank))))
  | setNoColour (value : Bool) : Tells env terminal threshold (.setNoColour value) (.ok .done)
  | setVariable (name : Text) (value : Option Text) :
    Tells env terminal threshold (.setVariable name value) (.ok .done)
  | emit {level : Level} {definition message : Text} {result : Except Fault Answer}
      (h : Emits env terminal threshold level definition message result) :
    Tells env terminal threshold (.emit level definition message) result

namespace Answer

def stdout : Answer → Text
  | .written out _ => out
  | _ => []

def stderr : Answer → Text
  | .written _ err => err
  | _ => []

end Answer

/-- What is left of a sequence comes to a result, after `history` was answered by `answers`. -/
inductive Told (env : Environment) (terminal : Bool) : (history : List Step) →
    (answers : List Answer) → List Step → Except Fault (List Answer × Setting) → Prop where
  | done {history : List Step} {answers : List Answer} {last : Setting}
      (hout : last.console.stdout = answers.flatMap Answer.stdout)
      (herr : last.console.stderr = answers.flatMap Answer.stderr) :
    Told env terminal history answers [] (.ok ([], last))
  | stopped {history rest : List Step} {answers : List Answer} {step : Step} {threshold : Level}
      {f : Fault} (hnames : Level.Names (settingInForce env history) threshold)
      (htells : Tells (environmentAfter env history) terminal threshold step (.error f)) :
    Told env terminal history answers (step :: rest) (.error f)
  | answered {history rest : List Step} {answers : List Answer} {step : Step} {threshold : Level}
      {answer : Answer} {result : Except Fault (List Answer × Setting)}
      (hnames : Level.Names (settingInForce env history) threshold)
      (htells : Tells (environmentAfter env history) terminal threshold step (.ok answer))
      (hrest : Told env terminal (history ++ [step]) (answers ++ [answer]) rest result) :
    Told env terminal history answers (step :: rest)
      (result.map fun (others, last) => (answer :: others, last))

namespace Step

def settles (step : Step) : Bool := step.setting?.isSome || step.consults

end Step

theorem settingInForce_set {setting : Option Text} (h : step.setting? = some setting)
    (env : Environment) (history : List Step) :
    settingInForce env (history ++ [step]) = setting := by
  simp [settingInForce, h]

theorem findSome?_of_unsettled (h : history.any Step.settles = false) :
    history.reverse.findSome? Step.setting? = none ∧
      (history.takeWhile fun step => !step.consults) = history := by
  have hnone : ∀ step ∈ history, step.setting? = none ∧ step.consults = false := by
    intro step hstep
    have hstep' := List.any_eq_false.mp h step hstep
    simpa [Step.settles] using hstep'
  constructor
  · exact List.findSome?_eq_none_iff.mpr fun step hstep =>
      (hnone step (List.mem_reverse.mp hstep)).1
  · exact List.takeWhile_eq_self_iff.mpr fun step hstep => by simp [(hnone step hstep).2]

theorem settingInForce_unsettled (h : history.any Step.settles = false) (env : Environment) :
    settingInForce env history = (environmentAfter env history).get? levelVariable := by
  obtain ⟨hset, hconsulted⟩ := findSome?_of_unsettled h
  rw [settingInForce, hset, hconsulted]
  rfl

/-- Once the level is settled only a new setting counts. -/
theorem settingInForce_settled (h : history.any Step.settles = true) (hstep : step.setting? = none)
    (env : Environment) : settingInForce env (history ++ [step]) = settingInForce env history := by
  have hset : (history ++ [step]).reverse.findSome? Step.setting? =
      history.reverse.findSome? Step.setting? := by
    simp [hstep]
  rw [settingInForce, settingInForce, hset]
  cases hlast : history.reverse.findSome? Step.setting? with
  | some setting => rfl
  | none =>
    -- there is no setting, so the level was consulted
    obtain ⟨first, hfirst, hsettles⟩ := List.any_eq_true.mp h
    have hunset := List.findSome?_eq_none_iff.mp hlast first (List.mem_reverse.mpr hfirst)
    have hconsults : first.consults = true := by simpa [Step.settles, hunset] using hsettles
    have hstops : ¬ (history.takeWhile fun step => !step.consults).length = history.length := by
      intro hlength
      have hall := List.takeWhile_eq_self_iff.mp
        ((List.takeWhile_prefix fun step : Step => !step.consults).eq_of_length hlength)
      simpa [hconsults] using hall first hfirst
    rw [List.takeWhile_append, if_neg hstops]

theorem settingInForce_consults (hconsults : step.consults = true) (hstep : step.setting? = none)
    (env : Environment) (history : List Step) :
    settingInForce env (history ++ [step]) = settingInForce env history := by
  cases h : history.any Step.settles with
  | true => exact settingInForce_settled h hstep env
  | false =>
    obtain ⟨hset, hconsulted⟩ := findSome?_of_unsettled h
    have hset' : (history ++ [step]).reverse.findSome? Step.setting? = none := by
      simp [hstep, hset]
    have hstops : [step].takeWhile (fun step => !step.consults) = [] := by
      simp [hconsults]
    rw [settingInForce_unsettled h, settingInForce, hset', List.takeWhile_append, hconsulted,
      if_pos rfl, hstops, List.append_nil]
    rfl

/-- A setting that a sequence has come to, with `history` behind it that was answered by
`answers`. -/
structure Reached (env : Environment) (terminal : Bool) (history : List Step)
    (answers : List Answer) (s : Setting) : Prop where
  environment : s.environment = environmentAfter env history
  terminal : s.console.terminal = terminal
  level : s.console.level.getD (levelOf s.environment) =
    Level.named (settingInForce env history)
  settled : s.console.level.isSome = history.any Step.settles
  stdout : s.console.stdout = answers.flatMap Answer.stdout
  stderr : s.console.stderr = answers.flatMap Answer.stderr

section Reached

variable {answers : List Answer} {answer : Answer}

theorem reached_nil (env : Environment) (terminal : Bool) :
    Reached env terminal [] [] ⟨env, { terminal }⟩ :=
  ⟨rfl, rfl, rfl, rfl, rfl, rfl⟩

theorem Reached.consulted (h : Reached env terminal history answers s)
    (hconsults : step.consults = true) (hlevel : d.level = some (s.console.level.getD
      (levelOf s.environment))) (hterminal : d.terminal = s.console.terminal)
    (hextended : Extended s.console d answer.stdout answer.stderr) :
    Reached env terminal (history ++ [step]) (answers ++ [answer]) { s with console := d } := by
  have hset : step.setting? = none := by cases step <;> first | rfl | exact nomatch hconsults
  have halter : environmentAfter env (history ++ [step]) = environmentAfter env history := by
    rw [environmentAfter_concat]
    cases step <;> first | rfl | exact nomatch hconsults
  constructor
  · rw [halter, h.environment]
  · rw [hterminal, h.terminal]
  · rw [hlevel, Option.getD_some, settingInForce_consults hconsults hset, h.level]
  · simp [hlevel, Step.settles, hconsults]
  · simp [hextended.stdout, h.stdout]
  · simp [hextended.stderr, h.stderr]

theorem Reached.set {setting : Option Text} (h : Reached env terminal history answers s) :
    Reached env terminal (history ++ [.setLevel setting])
      (answers ++ [.level (Level.named setting)])
      { s with console := s.console.setLevel setting } := by
  constructor
  · rw [environmentAfter_concat]
    exact h.environment
  · exact h.terminal
  · rw [settingInForce_set rfl]
    rfl
  · simp [setLevel, Step.settles, Step.setting?]
  · simp [setLevel, h.stdout, Answer.stdout]
  · simp [setLevel, h.stderr, Answer.stderr]

theorem Reached.passed (h : Reached env terminal history answers s)
    (hsettles : step.settles = false) (hlevel : d.level = s.console.level)
    (hterminal : d.terminal = s.console.terminal) (hextended : Extended s.console d [] []) :
    Reached env terminal (history ++ [step]) (answers ++ [.done])
      ⟨step.alter s.environment, d⟩ := by
  have hset : step.setting? = none := by
    simp only [Step.settles, Bool.or_eq_false_iff] at hsettles
    simpa using hsettles.1
  have hany : (history ++ [step]).any Step.settles = history.any Step.settles := by
    simp [hsettles]
  constructor
  case environment => rw [environmentAfter_concat, h.environment]
  case terminal => rw [hterminal, h.terminal]
  case level =>
    have hlevel' := h.level
    have hsettled := h.settled
    rw [hlevel]
    cases hold : s.console.level with
    | some level =>
      rw [hold] at hlevel' hsettled
      rw [settingInForce_settled hsettled.symm hset]
      exact hlevel'
    | none =>
      rw [hold] at hsettled
      rw [settingInForce_unsettled (hany.trans hsettled.symm), environmentAfter_concat,
        ← h.environment]
      rfl
  case settled => rw [hany, hlevel, h.settled]
  case stdout => simp [hextended.stdout, h.stdout, Answer.stdout]
  case stderr => simp [hextended.stderr, h.stderr, Answer.stderr]

end Reached

theorem Extended.written (h : Extended c d [] []) (env : Environment) (level : Level)
    (style : Style) (message x : Text) :
    Extended c ((d.put level x).afterPainting env style message) (shares level x).1
      (shares level x).2 := by
  have hput := extended_put level x d
  refine h.trans ⟨?_, ?_⟩
  · rw [stdout_afterPainting, hput.stdout]
  · rw [stderr_afterPainting, hput.stderr]

theorem miswritten_of_styleOf {f : Fault} (h : styleOf level definition message = .error f) :
    Style.Miswritten definition f := by
  unfold styleOf at h
  split at h
  · exact nomatch h
  split at h
  · exact Style.miswritten_of_ofText h
  · exact nomatch h

theorem emits_shares {style : Style} {x : Text} (h : threshold.rank ≤ level.rank)
    (hroom : Screen.hasRoom env terminal = .ok true)
    (hstyle : styleOf level definition message = .ok style) (hx : Writes message x) :
    Emits env terminal threshold level definition message
      (.ok (.written (shares level x).1 (shares level x).2)) := by
  cases level with
  | info => exact .stdout h hroom hstyle (.inl rfl) hx
  | success => exact .stdout h hroom hstyle (.inr rfl) hx
  | _ => exact .stderr h hroom hstyle ⟨Level.noConfusion, Level.noConfusion⟩ hx

theorem emit_emits (env : Environment) (level : Level) (definition message : Text) (c : Console) :
    (∃ f, c.emit env level definition message = .error f ∧
      Emits env c.terminal (c.level.getD (levelOf env)) level definition message (.error f)) ∨
    ∃ d out err, c.emit env level definition message = .ok d ∧
      Emits env c.terminal (c.level.getD (levelOf env)) level definition message
        (.ok (.written out err)) ∧
      d.level = some (c.level.getD (levelOf env)) ∧ d.terminal = c.terminal ∧
      Extended c d out err := by
  have hquiet := extended_isEnabled env level c
  have ht : (c.isEnabled env level).2.terminal = c.terminal := rfl
  cases henabled : (c.isEnabled env level).1 with
  | false =>
    refine .inr ⟨_, [], [], emit_of_not_enabled henabled _ _, .silent ?_, rfl, rfl, hquiet⟩
    simpa [isEnabled_fst] using henabled
  | true =>
  have hrank : (c.level.getD (levelOf env)).rank ≤ level.rank := by
    simpa [isEnabled_fst] using henabled
  cases hroom : Screen.hasRoom env c.terminal with
  | error f =>
    refine .inl ⟨f, ?_, .unreadable hrank hroom (Screen.hasRoom_eq_error hroom)⟩
    simp [emit, henabled, ht, hroom, bind, Except.bind]
  | ok room =>
  cases room with
  | false =>
    exact .inr ⟨_, [], [], emit_of_not_hasRoom hroom _ _,
      .roomless hrank (Screen.hasRoom_eq_false_iff.mp hroom), rfl, rfl, hquiet⟩
  | true =>
  cases hstyle : styleOf level definition message with
  | error f =>
    have hown : definition ≠ [] := by
      rintro rfl
      exact absurd hstyle (by simp [styleOf])
    refine .inl ⟨f, ?_, .unstyled hrank hroom hown hstyle (miswritten_of_styleOf hstyle)⟩
    simp [emit, henabled, ht, hroom, hstyle, bind, Except.bind]
  | ok style =>
    have hwrites : Writes message ((c.isEnabled env level).2.rendered env style message) :=
      ⟨_, isBrush_brush env style _, rfl⟩
    refine .inr ⟨_, _, _, ?_, emits_shares hrank hroom hstyle hwrites, ?_, ?_,
      hquiet.written env level style message _⟩
    · simp [emit, henabled, ht, hroom, hstyle, bind, Except.bind]
    · rw [level_afterPainting, level_put]
      rfl
    · rw [terminal_afterPainting, terminal_put, ht]

section Run

variable {answers : List Answer} {steps : List Step}

theorem Reached.perform (h : Reached env terminal history answers s) (step : Step) :
    (∃ f, s.perform step = .error f ∧ Tells (environmentAfter env history) terminal
      (Level.named (settingInForce env history)) step (.error f)) ∨
    ∃ answer next, s.perform step = .ok (answer, next) ∧
      Tells (environmentAfter env history) terminal (Level.named (settingInForce env history)) step
        (.ok answer) ∧
      Reached env terminal (history ++ [step]) (answers ++ [answer]) next := by
  obtain rfl := h.terminal
  rw [← h.level, ← h.environment]
  cases step with
  | setLevel setting =>
    exact .inr ⟨.level (Level.named setting), { s with console := s.console.setLevel setting }, rfl,
      .setLevel (Level.names_named setting), h.set⟩
  | askLevel =>
    exact .inr ⟨_, { s with console := (s.console.levelInForce s.environment).2 }, rfl, .askLevel,
      h.consulted rfl rfl rfl ⟨(List.append_nil _).symm, (List.append_nil _).symm⟩⟩
  | askEnabled level =>
    exact .inr ⟨_, { s with console := (s.console.isEnabled s.environment level).2 }, rfl,
      .askEnabled level,
      h.consulted rfl rfl rfl (extended_isEnabled s.environment level s.console)⟩
  | setNoColour value =>
    exact .inr ⟨.done, { s with console := s.console.setNoColour value }, rfl, .setNoColour value,
      h.passed rfl rfl rfl ⟨(List.append_nil _).symm, (List.append_nil _).symm⟩⟩
  | setVariable name value =>
    exact .inr ⟨.done, { s with environment := s.environment.set name value }, rfl,
      .setVariable name value, h.passed rfl rfl rfl (extended_refl s.console)⟩
  | emit level definition message =>
    rcases emit_emits s.environment level definition message s.console with
      ⟨f, hemit, hemits⟩ | ⟨d, out, err, hemit, hemits, hlevel, hterminal, hextended⟩
    · refine .inl ⟨f, ?_, .emit hemits⟩
      simp [Setting.perform, hemit, bind, Except.bind]
    · refine .inr ⟨.written out err, { s with console := d }, ?_, .emit hemits,
        h.consulted rfl hlevel hterminal hextended⟩
      simp [Setting.perform, hemit, bind, Except.bind, hextended.stdout, hextended.stderr]

theorem Reached.told (h : Reached env terminal history answers s) (steps : List Step) :
    Told env terminal history answers steps (s.performAll steps) := by
  -- by induction on the steps that are left, for any that are behind
  induction steps generalizing history answers s with
  | nil => exact .done h.stdout h.stderr
  | cons step rest ih =>
    rcases h.perform step with ⟨f, hperform, htells⟩ | ⟨answer, next, hperform, htells, hnext⟩
    · have hall : s.performAll (step :: rest) = .error f := by
        rw [Setting.performAll, hperform]
        rfl
      rw [hall]
      exact .stopped (Level.names_named _) htells
    · have hall : s.performAll (step :: rest) =
          (next.performAll rest).map fun (others, last) => (answer :: others, last) := by
        rw [Setting.performAll, hperform]
        cases hrest : next.performAll rest <;> simp [hrest, bind, Except.bind, Except.map]
      rw [hall]
      exact .answered (Level.names_named _) htells (ih hnext)

/-- Every step of a sequence is answered as the level in force at that point has it, from a fresh
console on. -/
theorem performAll_told (env : Environment) (terminal : Bool) (steps : List Step) :
    Told env terminal [] [] steps (Setting.performAll ⟨env, { terminal }⟩ steps) :=
  (reached_nil env terminal).told steps

/-- A message in force is not written where the screen has no columns, and is a fault where their
number or the style cannot be read. -/
theorem enabled_message_unwritten :
    Level.Names (settingInForce [("COLUMNS", "0")] []) .info ∧
    (Setting.performAll ⟨[("COLUMNS", "0")], {}⟩ [.emit .info [] "m"]).map Prod.fst =
      .ok [.written [] []] ∧
    (Setting.performAll ⟨[("COLUMNS", "²")], {}⟩ [.emit .info [] "m"]).map Prod.fst =
      .error (.notNumeral "²") ∧
    (Setting.performAll ⟨[], {}⟩ [.emit .info "rgb(1,,3)" "m"]).map Prod.fst =
      .error (.notNumeral []) := by
  refine ⟨.unset, ?_, ?_, ?_⟩
  · decide +kernel
  · decide +kernel
  · decide +kernel

end Run

end Console

end Paddock
