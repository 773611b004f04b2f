import Mathlib.Data.List.Infix
import Paddock.Proofs.Completing
import Paddock.Proofs.Decision
import Paddock.Proofs.InStep
import Paddock.Shell.Execution

/-!
# Suggested commands

A line whose first word opens a command's name without being one is answered with a suggestion. What
is suggested can be run: among the standard commands, those that a front opens have one that opens
all the others. No other refusal suggests anything, and none of them asks git.
-/

namespace Paddock

set_option autoImplicit false

namespace Command

variable {catalogue : Catalogue} {token name other message : Text} {error : LineError}

theorem names_standard_solid : ∀ name ∈ names standard, name ≠ [] ∧
    ∀ g ∈ name, g.isBlank = false := by decide

theorem isWord_of_mem_standard (h : name ∈ names standard) : name.IsWord :=
  ⟨(names_standard_solid name h).1, (names_standard_solid name h).2⟩

theorem standard_branches : ∀ name ∈ names standard, ∀ front ∈ name.inits, front = [] ∨
    front ∈ names standard ∨ ∃ least ∈ names standard, front <+: least ∧
      ∀ other ∈ names standard, front <+: other → least <+: other := by decide

/-- Of the commands that a front opens one opens all the others. -/
theorem exists_least (hne : token ≠ []) (hnot : token ∉ names standard)
    (h : Offers standard token name) :
    ∃ least, Offers standard token least ∧
      ∀ other, Offers standard token other → least <+: other := by
  have hinits : token ∈ name.inits := (List.mem_inits token name).mpr h.opens
  rcases standard_branches name h.listed token hinits with hnil | hmem | hleast
  · exact absurd hnil hne
  · exact absurd hmem hnot
  · obtain ⟨least, hlisted, hopens, hall⟩ := hleast
    exact ⟨least, ⟨hlisted, hopens⟩, fun other hother => hall other hother.listed hother.opens⟩

/-- Completing comes to the command that opens all others. -/
theorem trim_of_completes {least line : Text} (hleast : Offers standard token least)
    (hall : ∀ other, Offers standard token other → least <+: other)
    (h : Completes standard token (some line)) : Text.trim line = colon :: least := by
  have hword : Text.IsWord (colon :: least) :=
    ⟨List.cons_ne_nil _ _, List.forall_mem_cons.mpr
      ⟨colon_not_isBlank, (isWord_of_mem_standard hleast.listed).solid⟩⟩
  have htrim : Text.trim (colon :: least) = colon :: least :=
    Text.trim_eq_self (Text.isTrimmed_of_forall hword.solid)
  cases h with
  | @only name h =>
    obtain rfl := h.unique least hleast
    exact (Text.trim_append_of_isBlank_right (by decide) (colon :: least)).trans htrim
  | @shared _ _ shared _ _ _ h =>
    have hsame : shared = least :=
      (h.opens least hleast).eq_of_length_le (h.longest least hall).length_le
    rw [hsame, htrim]

theorem completes_token (hsolid : ∀ g ∈ token, g.isBlank = false) :
    Completes catalogue token (complete catalogue (colon :: token)) :=
  completes_of_typed ⟨List.dropWhile_cons_of_neg (by simp [colon_not_isBlank]), hsolid⟩

def suggestionLine (name : Text) : Text :=
  Text.ofString "Did you mean ':" ++ name ++ Text.ofString "'?"

/-- Some line of the message suggests the command. -/
def Suggests (message name : Text) : Prop := suggestionLine name ∈ Text.lines message

theorem suggestionLine_inj (h : suggestionLine name = suggestionLine other) : name = other := by
  unfold suggestionLine at h
  exact List.append_cancel_left (List.append_cancel_right h)

theorem suggestionLine_ne_message (error : LineError) (name : Text) :
    suggestionLine name ≠ error.message := by
  intro h
  have hhead := congrArg List.head? h
  cases error <;> simp [suggestionLine, LineError.message, Text.ofString, Text.ofChars] at hhead

theorem explain_of_none (h : complete standard (colon :: token) = none) :
    explain standard (.unknown token) = (LineError.unknown token).message := by
  simp only [explain, h, Option.map_none]

theorem explain_of_some {line : Text} (h : complete standard (colon :: token) = some line)
    (htrim : Text.trim line = colon :: name) (hne : name ≠ token) :
    explain standard (.unknown token) =
      (LineError.unknown token).message ++ Text.newline :: suggestionLine name := by
  have hother : ¬ colon :: name = colon :: token := fun heq => hne (List.cons.inj heq).2
  have hfront : Text.ofString "\nDid you mean '" ++ [colon] =
      Text.newline :: Text.ofString "Did you mean ':" := by decide
  simp only [explain, h, Option.map_some, htrim, if_neg hother]
  rw [suggestionLine, List.append_assoc, List.append_assoc, List.append_cancel_left_eq,
    ← List.singleton_append, List.append_assoc, ← List.append_assoc, hfront]
  simp

theorem lines_message (hsolid : ∀ token, error = .unknown token → ∀ g ∈ token, g.isBlank = false) :
    Text.lines error.message = [error.message] := by
  apply Text.lines_eq_singleton
  cases error with
  | empty => decide
  | noColon => decide
  | noName => decide
  | unknown token =>
    intro hmem
    rcases List.mem_append.mp hmem with hmem | hmem
    · exact absurd hmem (by decide)
    · exact absurd (hsolid token rfl _ hmem) (by decide)

/-- What a message for a refused line says and does not say. -/
structure Answers (error : LineError) (message : Text) : Prop where
  suggests_iff : ∀ token, error = .unknown token →
    ((∃ name, Suggests message name) ↔ ∃ name ∈ names standard, token <+: name ∧ token ≠ name)
  runnable : ∀ token name, error = .unknown token → Suggests message name →
    name ∈ names standard ∧ token <+: name ∧ token ≠ name ∧
      parseLine standard (colon :: name) = .ok ⟨name, [], colon :: name⟩
  others : (∀ token, error ≠ .unknown token) → ∀ name, ¬ Suggests message name

theorem parseLine_name (h : name ∈ names standard) :
    parseLine standard (colon :: name) = .ok ⟨name, [], colon :: name⟩ := by
  apply parseLine_eq_ok_iff.mpr
  exact ⟨rfl, h, [], [], [], by simp, rfl, rfl, isWord_of_mem_standard h, .done rfl⟩

theorem not_suggests_message
    (hsolid : ∀ token, error = .unknown token → ∀ g ∈ token, g.isBlank = false) :
    ¬ Suggests error.message name := by
  rw [Suggests, lines_message hsolid, List.mem_singleton]
  exact suggestionLine_ne_message error name

theorem suggests_append_iff (hword : token.IsWord) (hname : name ∈ names standard) :
    Suggests ((LineError.unknown token).message ++ Text.newline :: suggestionLine name) other ↔
      other = name := by
  have hline : Text.newline ∉ suggestionLine name := by
    intro hmem
    rcases List.mem_append.mp hmem with hmem | hmem
    · rcases List.mem_append.mp hmem with hmem | hmem
      · exact absurd hmem (by decide)
      · exact absurd ((isWord_of_mem_standard hname).solid _ hmem) (by decide)
    · exact absurd hmem (by decide)
  have hsolid : ∀ x, LineError.unknown token = .unknown x → ∀ g ∈ x, g.isBlank = false := by
    rintro x ⟨⟩
    exact hword.solid
  rw [Suggests, Text.lines_append, lines_message hsolid, Text.lines_eq_singleton hline]
  constructor
  · intro hmem
    rcases List.mem_cons.mp hmem with hmessage | hmem
    · exact absurd hmessage (suggestionLine_ne_message _ other)
    · exact suggestionLine_inj (List.mem_singleton.mp hmem)
  · rintro rfl
    exact List.mem_cons_of_mem _ (List.mem_singleton_self _)

theorem answers_unknown (hword : token.IsWord) (hnot : token ∉ names standard) :
    Answers (.unknown token) (explain standard (.unknown token)) := by
  have hne : ∀ name ∈ names standard, token ≠ name := by
    rintro name hname rfl
    exact hnot hname
  have h : Completes standard token (complete standard (colon :: token)) :=
    completes_token hword.solid
  by_cases hoffers : ∃ name, Offers standard token name
  · obtain ⟨name, hname⟩ := hoffers
    obtain ⟨least, hleast, hall⟩ := exists_least hword.ne_nil hnot hname
    obtain ⟨line, hline⟩ : ∃ line, complete standard (colon :: token) = some line := by
      generalize complete standard (colon :: token) = result at h
      cases h with
      | nothing h => exact absurd hname (h name)
      | only => exact ⟨_, rfl⟩
      | shared => exact ⟨_, rfl⟩
    rw [hline] at h
    rw [explain_of_some hline (trim_of_completes hleast hall h) (hne least hleast.listed).symm]
    refine ⟨?_, ?_, fun hno => absurd rfl (hno token)⟩
    · rintro _ ⟨⟩
      exact iff_of_true ⟨least, (suggests_append_iff hword hleast.listed).mpr rfl⟩
        ⟨least, hleast.listed, hleast.opens, hne least hleast.listed⟩
    · rintro _ other ⟨⟩ hother
      obtain rfl := (suggests_append_iff hword hleast.listed).mp hother
      exact ⟨hleast.listed, hleast.opens, hne other hleast.listed, parseLine_name hleast.listed⟩
  · have hnone : complete standard (colon :: token) = none := by
      generalize complete standard (colon :: token) = result at h
      cases h with
      | nothing => rfl
      | only h => exact absurd ⟨_, h.offers⟩ hoffers
      | shared hone => exact absurd ⟨_, hone⟩ hoffers
    have hsilent : ∀ name, ¬ Suggests (LineError.unknown token).message name := by
      intro name
      apply not_suggests_message
      rintro x ⟨⟩
      exact hword.solid
    rw [explain_of_none hnone]
    refine ⟨?_, ?_, fun hno => absurd rfl (hno token)⟩
    · rintro _ ⟨⟩
      refine iff_of_false (fun ⟨name, hname⟩ => hsilent name hname) ?_
      rintro ⟨name, hlisted, hopens, -⟩
      exact hoffers ⟨name, hlisted, hopens⟩
    · rintro _ name ⟨⟩ hname
      exact absurd hname (hsilent name)

theorem answers_explain {x : Text} (h : Deserves standard x error) :
    Answers error (explain standard error) := by
  have hother : ∀ e : LineError, (∀ token, e ≠ .unknown token) → explain standard e = e.message →
      Answers e (explain standard e) := by
    intro e he hexplain
    rw [hexplain]
    exact ⟨fun token hunknown => absurd hunknown (he token),
      fun token name hunknown => absurd hunknown (he token),
      fun _ name => not_suggests_message fun token hunknown => absurd hunknown (he token)⟩
  cases error with
  | empty => exact hother .empty (fun _ => nofun) rfl
  | noColon => exact hother .noColon (fun _ => nofun) rfl
  | noName => exact hother .noName (fun _ => nofun) rfl
  | unknown token =>
    obtain ⟨hnot, args, before, gap, rest, -, -, -, hword, -⟩ := h
    exact answers_unknown hword hnot

end Command

namespace Shell

open World

variable {σ : Type} {line : Text} {misread : Command.Misread} {cwd : Place} {w : World σ}

/-- A refused line is answered with a message and has no other effect. -/
structure Refusal (runner : Runner σ) (pool : List Text) (line : Text) (cwd : Place) (w : World σ)
    (message : Text) : Prop where
  reply : ∀ reply, resultOf (execute runner pool line cwd) w = .ok reply → reply = ⟨false, message⟩
  replies : ∀ room, Screen.hasRoom w.environment w.console.terminal = .ok room →
    resultOf (execute runner pool line cwd) w = .ok ⟨false, message⟩
  requests : (worldAfter (execute runner pool line cwd) w).requests = w.requests
  git : (worldAfter (execute runner pool line cwd) w).git = w.git

theorem refusal_of_report {runner : Runner σ} {pool : List Text} {message : Text}
    (hexecute : execute runner pool line cwd =
      report ⟨false, message⟩ >>= fun _ => pure ⟨false, message⟩) :
    Refusal runner pool line cwd w message := by
  have hspeaks : Speaks (execute runner pool line cwd) := by
    rw [hexecute]
    exact speaks_bind (speaks_say _ _) fun _ => speaks_pure _
  refine ⟨?_, ?_, (hspeaks w).requests_eq, (hspeaks w).akin.git⟩
  · intro reply hreply
    rw [hexecute] at hreply
    cases hreport : (report ⟨false, message⟩ : Action σ Fault Unit) w with
    | ok _ v =>
      rw [resultOf, bind_ok hreport] at hreply
      exact (Except.ok.inj hreply).symm
    | error f v =>
      rw [resultOf, bind_error hreport] at hreply
      cases hreply
  · intro room hroom
    obtain ⟨console, hsay, -⟩ := say_of_hasRoom (ε := Fault) hroom .error message
    have hreport : (report ⟨false, message⟩ : Action σ Fault Unit) w = .ok () _ := hsay
    rw [hexecute, resultOf, bind_ok hreport]
    rfl

theorem execute_of_misread (runner : Runner σ) (pool : List Text) (cwd : Place)
    (h : Command.parseLine Command.standard line = .error misread) : execute runner pool line cwd =
      report ⟨false, Command.explain Command.standard misread.error⟩ >>= fun _ =>
        pure ⟨false, Command.explain Command.standard misread.error⟩ := by
  rw [execute, answer, h]
  rfl

/-- The message for a refused line suggests a command exactly if its first word opens one. -/
theorem execute_answers (runner : Runner σ) (pool : List Text) (cwd : Place) (w : World σ)
    (h : Command.parseLine Command.standard line = .error misread) :
    ∃ message, Command.Answers misread.error message ∧ Refusal runner pool line cwd w message :=
  ⟨_, Command.answers_explain (Command.parseLine_eq_error_iff.mp h).2,
    refusal_of_report (execute_of_misread runner pool cwd h)⟩

theorem execute_answers_creat :
    Command.parseLine Command.standard ":creat otter" =
        .error ⟨.unknown "creat", ":creat otter"⟩ ∧
      ∃ message, Command.Answers (.unknown "creat") message ∧
        (∃ name, Command.Suggests message name) ∧
        Refusal Command.leftoverOtter [] ":creat otter" .here Command.bareWorld message := by
  have hrefused : Command.parseLine Command.standard ":creat otter" =
      .error ⟨.unknown "creat", ":creat otter"⟩ := rfl
  obtain ⟨message, hanswers, hrefusal⟩ :=
    execute_answers Command.leftoverOtter [] .here Command.bareWorld hrefused
  refine ⟨hrefused, message, hanswers, ?_, hrefusal⟩
  exact (hanswers.suggests_iff "creat" rfl).mpr ⟨"create", by decide⟩

end Shell

end Paddock
