import Paddock.Command.Line

/-!
# Completing command names

A front of a command name is completed to the name and a space if only one command has it, and
otherwise to the longest front that all those commands share.
-/

namespace Paddock.Command

set_option autoImplicit false

def commonFront : Text → Text → Text
  | a :: x, b :: y => if a = b then a :: commonFront x y else []
  | _, _ => []

theorem commonFront_prefix_left (x y : Text) : commonFront x y <+: x := by
  induction x generalizing y with
  | nil => simp [commonFront]
  | cons a x ih =>
    cases y with
    | nil => simp [commonFront]
    | cons b y =>
      simp only [commonFront]
      split
      · exact List.cons_prefix_cons.mpr ⟨rfl, ih y⟩
      · simp

theorem commonFront_comm (x y : Text) : commonFront x y = commonFront y x := by
  induction x generalizing y with
  | nil => cases y <;> simp [commonFront]
  | cons a x ih =>
    cases y with
    | nil => simp [commonFront]
    | cons b y =>
      by_cases h : a = b
      · subst h; simp [commonFront, ih y]
      · have h' : ¬ b = a := fun e => h e.symm
        simp [commonFront, h, h']

def candidates (catalogue : Catalogue) (front : Text) : List Text :=
  Text.sortedSet ((names catalogue).filter (Text.startsWith front))

def complete (catalogue : Catalogue) (x : Text) : Option Text :=
  match Text.trimLeft x with
  | [] => none
  | g :: front =>
    if g ≠ colon ∨ front.any Glyph.isBlank then none
    else
      match candidates catalogue front with
      | [] => none
      | [name] => some (colon :: name ++ [Text.space])
      | name :: others => some (colon :: others.foldl commonFront name)

/-- What a command line error says; a front of a command name brings a suggestion. -/
def explain (catalogue : Catalogue) (e : LineError) : Text :=
  match e with
  | .unknown token =>
    let typed := colon :: token
    match (complete catalogue typed).map Text.trim with
    | some suggestion =>
      if suggestion = typed then e.message
      else
        e.message ++ Text.ofString "\nDid you mean '" ++ suggestion ++ Text.ofString "'?"
    | none => e.message
  | _ => e.message

end Paddock.Command
