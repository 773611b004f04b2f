import Paddock.Json.Printer

/-!
# Values that have a form

A value is printed unless something within it has no form: a date or time, an integer of too many
digits, or items that stand too deep. The first such thing is what printing stops at.
-/

namespace Paddock

set_option autoImplicit false

section Bind

variable {ε α β : Type} {x : Except ε α} {f : α → Except ε β}

theorem bind_eq_ok {b : β} : x >>= f = .ok b ↔ ∃ a, x = .ok a ∧ f a = .ok b := by
  cases x with
  | error e => exact ⟨nofun, nofun⟩
  | ok a =>
    constructor
    · exact fun h => ⟨a, rfl, h⟩
    · rintro ⟨_, ha, h⟩
      cases ha
      exact h

theorem bind_eq_error {e : ε} (h : x = .error e ∨ ∃ a, x = .ok a ∧ f a = .error e) :
    x >>= f = .error e := by
  rcases h with rfl | ⟨a, rfl, h⟩
  · rfl
  · exact h

end Bind

/-- Either all of a list have one property, or there is a first that has the other. -/
theorem forall_or_first {α : Type} {p q : α → Prop} {xs : List α} (h : ∀ x ∈ xs, p x ∨ q x) :
    (∀ x ∈ xs, p x) ∨
      ∃ before x after, xs = before ++ x :: after ∧ (∀ y ∈ before, p y) ∧ q x := by
  induction xs with
  | nil => exact .inl (List.forall_mem_nil p)
  | cons x xs ih =>
    obtain ⟨hx, hxs⟩ := List.forall_mem_cons.mp h
    rcases hx with hx | hx
    · rcases ih hxs with hall | ⟨before, y, after, rfl, hbefore, hy⟩
      · exact .inl (List.forall_mem_cons.mpr ⟨hx, hall⟩)
      · exact .inr ⟨x :: before, y, after, rfl, List.forall_mem_cons.mpr ⟨hx, hbefore⟩, hy⟩
    · exact .inr ⟨[], x, xs, rfl, List.forall_mem_nil p, hx⟩

/-- Induction on a value with what it holds. -/
theorem Value.induction {motive : Value → Prop} (null : motive .null)
    (bool : ∀ b, motive (.bool b)) (int : ∀ n, motive (.int n)) (float : ∀ f, motive (.float f))
    (text : ∀ x, motive (.text x)) (moment : ∀ m, motive (.moment m))
    (array : ∀ items : List Value, (∀ item ∈ items, motive item) → motive (.array items))
    (table : ∀ fields : List (Text × Value), (∀ field ∈ fields, motive field.2) →
      motive (.table fields)) (v : Value) : motive v :=
  @Value.rec motive (fun items => ∀ item ∈ items, motive item)
    (fun fields => ∀ field ∈ fields, motive field.2) (fun field => motive field.2)
    null bool int float text moment array table
    (List.forall_mem_nil _) (fun _ _ hitem hrest => List.forall_mem_cons.mpr ⟨hitem, hrest⟩)
    (List.forall_mem_nil _) (fun _ _ hfield hrest => List.forall_mem_cons.mpr ⟨hfield, hrest⟩)
    (fun _ _ hvalue => hvalue) v

namespace Json

variable {v item : Value} {room depth : Nat} {lines : List Line} {items before after : List Value}
  {fields : List (Text × Value)} {blocks : List (List Line)} {f : Fault}

theorem itemLines_cons :
    itemLines room depth (item :: items) = .ok blocks ↔
      ∃ lines more, valueLines room depth item = .ok lines ∧
        itemLines room depth items = .ok more ∧ blocks = lines :: more := by
  simp only [itemLines, bind_eq_ok, Except.ok.injEq]
  constructor
  · rintro ⟨lines, hlines, more, hmore, rfl⟩
    exact ⟨lines, more, hlines, hmore, rfl⟩
  · rintro ⟨lines, more, hlines, hmore, rfl⟩
    exact ⟨lines, hlines, more, hmore, rfl⟩

theorem exists_itemLines (h : ∀ item ∈ items, ∃ lines, valueLines room depth item = .ok lines) :
    ∃ blocks, itemLines room depth items = .ok blocks := by
  induction items with
  | nil => exact ⟨[], rfl⟩
  | cons item items ih =>
    obtain ⟨hitem, hitems⟩ := List.forall_mem_cons.mp h
    obtain ⟨lines, hlines⟩ := hitem
    obtain ⟨more, hmore⟩ := ih hitems
    exact ⟨_, itemLines_cons.mpr ⟨lines, more, hlines, hmore, rfl⟩⟩

theorem itemLines_eq_error (h : ∀ item ∈ before, ∃ lines, valueLines room depth item = .ok lines)
    (hitem : valueLines room depth item = .error f) (after : List Value) :
    itemLines room depth (before ++ item :: after) = .error f := by
  induction before with
  | nil => exact bind_eq_error (.inl hitem)
  | cons first before ih =>
    obtain ⟨hfirst, hbefore⟩ := List.forall_mem_cons.mp h
    obtain ⟨lines, hlines⟩ := hfirst
    exact bind_eq_error (.inr ⟨lines, hlines, bind_eq_error (.inl (ih hbefore))⟩)

def keyText (key : Text) : Text := stringText key ++ Text.ofString ": "

theorem fieldLines_eq (room depth : Nat) (fields : List (Text × Value)) :
    fieldLines room depth fields = (itemLines room depth (fields.map Prod.snd)).map
      (List.zipWith (fun field lines => startWith (keyText field.1) lines) fields) := by
  induction fields with
  | nil => rfl
  | cons field fields ih =>
    obtain ⟨key, value⟩ := field
    rw [fieldLines, ih, List.map_cons, itemLines]
    cases valueLines room depth value with
    | error e => rfl
    | ok lines => cases itemLines room depth (fields.map Prod.snd) <;> rfl

theorem fieldLines_cons {key : Text} :
    fieldLines room depth ((key, v) :: fields) = .ok blocks ↔
      ∃ lines more, valueLines room depth v = .ok lines ∧ fieldLines room depth fields = .ok more ∧
        blocks = startWith (keyText key) lines :: more := by
  simp only [fieldLines, bind_eq_ok, Except.ok.injEq]
  constructor
  · rintro ⟨lines, hlines, more, hmore, rfl⟩
    exact ⟨lines, more, hlines, hmore, rfl⟩
  · rintro ⟨lines, more, hlines, hmore, rfl⟩
    exact ⟨lines, hlines, more, hmore, rfl⟩

/-- Items may stand within a value at this depth, or there are none. -/
def Reaches (room depth : Nat) (isEmpty : Bool) : Prop := isEmpty = true ∨ depth < room

theorem reach_of_reaches {isEmpty : Bool} (h : Reaches room depth isEmpty) :
    reach room depth isEmpty = .ok () := by
  unfold reach
  rw [if_pos]
  simpa [Reaches] using h

theorem reach_of_not_reaches {isEmpty : Bool} (h : ¬ Reaches room depth isEmpty) :
    reach room depth isEmpty = .error (.tooDeep .primitive) := by
  unfold reach
  rw [if_neg]
  simpa [Reaches] using h

theorem valueLines_array (h : itemLines room (depth + 1) items = .ok blocks)
    (hreach : Reaches room depth items.isEmpty) :
    valueLines room depth (.array items) = .ok (block '[' ']' depth blocks) := by
  rw [valueLines, reach_of_reaches hreach, h]
  rfl

theorem exists_blocks_of_array (h : valueLines room depth (.array items) = .ok lines) :
    ∃ blocks, itemLines room (depth + 1) items = .ok blocks ∧
      lines = block '[' ']' depth blocks := by
  obtain ⟨_, -, h⟩ := bind_eq_ok.mp h
  obtain ⟨blocks, hblocks, h⟩ := bind_eq_ok.mp h
  exact ⟨blocks, hblocks, (Except.ok.inj h).symm⟩

theorem valueLines_table (h : fieldLines room (depth + 1) fields = .ok blocks)
    (hreach : Reaches room depth fields.isEmpty) :
    valueLines room depth (.table fields) = .ok (block '\x7b' '\x7d' depth blocks) := by
  rw [valueLines, reach_of_reaches hreach, h]
  rfl

theorem exists_blocks_of_table (h : valueLines room depth (.table fields) = .ok lines) :
    ∃ blocks, fieldLines room (depth + 1) fields = .ok blocks ∧
      lines = block '\x7b' '\x7d' depth blocks := by
  obtain ⟨_, -, h⟩ := bind_eq_ok.mp h
  obtain ⟨blocks, hblocks, h⟩ := bind_eq_ok.mp h
  exact ⟨blocks, hblocks, (Except.ok.inj h).symm⟩

/-- A value that stands `depth` brackets deep has a form. -/
inductive HasForm (room : Nat) : Nat → Value → Prop where
  | null {depth : Nat} : HasForm room depth .null
  | bool {depth : Nat} (b : Bool) : HasForm room depth (.bool b)
  | int {depth : Nat} {n : Int} (hn : n.natAbs < Nat.pow 10 Text.digitLimit) :
      HasForm room depth (.int n)
  | float {depth : Nat} (x : Binary64) (hroom : depth < room) : HasForm room depth (.float x)
  | text {depth : Nat} (x : Text) : HasForm room depth (.text x)
  | array {depth : Nat} {items : List Value} (hreach : Reaches room depth items.isEmpty)
      (hitems : ∀ item ∈ items, HasForm room (depth + 1) item) : HasForm room depth (.array items)
  | table {depth : Nat} {fields : List (Text × Value)} (hreach : Reaches room depth fields.isEmpty)
      (hfields : ∀ field ∈ fields, HasForm room (depth + 1) field.2) :
      HasForm room depth (.table fields)

/-- The first thing within a value that has no form, and the fault that it makes. -/
inductive Blocked (room : Nat) : Nat → Value → Fault → Prop where
  | moment {depth : Nat} (m : Moment) : Blocked room depth (.moment m) (momentFault room depth m)
  | deepFloat {depth : Nat} (x : Binary64) (hroom : room ≤ depth) :
      Blocked room depth (.float x) (.tooDeep .comparison)
  | int {depth : Nat} {n : Int} (hn : Nat.pow 10 Text.digitLimit ≤ n.natAbs) :
      Blocked room depth (.int n) .integerUnwritable
  | deepArray {depth : Nat} {items : List Value} (hreach : ¬ Reaches room depth items.isEmpty) :
      Blocked room depth (.array items) (.tooDeep .primitive)
  | deepTable {depth : Nat} {fields : List (Text × Value)}
      (hreach : ¬ Reaches room depth fields.isEmpty) :
      Blocked room depth (.table fields) (.tooDeep .primitive)
  | item {depth : Nat} {before after : List Value} {item : Value} {f : Fault}
      (hreach : Reaches room depth (before ++ item :: after).isEmpty)
      (hbefore : ∀ other ∈ before, HasForm room (depth + 1) other)
      (h : Blocked room (depth + 1) item f) :
      Blocked room depth (.array (before ++ item :: after)) f
  | field {depth : Nat} {before after : List (Text × Value)} {field : Text × Value} {f : Fault}
      (hreach : Reaches room depth (before ++ field :: after).isEmpty)
      (hbefore : ∀ other ∈ before, HasForm room (depth + 1) other.2)
      (h : Blocked room (depth + 1) field.2 f) :
      Blocked room depth (.table (before ++ field :: after)) f

theorem intText_of_few {n : Int} (hn : n.natAbs < Nat.pow 10 Text.digitLimit) :
    intText n = .ok (Text.ofInt n) := by
  rw [intText, if_pos hn]

theorem eq_ofInt_of_intText {n : Int} {x : Text} (h : intText n = .ok x) : x = Text.ofInt n := by
  unfold intText at h
  split at h
  · exact (Except.ok.inj h).symm
  · exact nomatch h

theorem eq_of_float {x : Binary64} (h : valueLines room depth (.float x) = .ok lines) :
    lines = [⟨depth, floatText x⟩] := by
  rw [valueLines] at h
  split at h
  · exact (Except.ok.inj h).symm
  · exact nomatch h

theorem HasForm.exists_valueLines (h : HasForm room depth v) :
    ∃ lines, valueLines room depth v = .ok lines := by
  induction h with
  | null => exact ⟨_, rfl⟩
  | bool b => cases b <;> exact ⟨_, rfl⟩
  | int hn => exact ⟨_, bind_eq_ok.mpr ⟨_, intText_of_few hn, rfl⟩⟩
  | float x hroom => exact ⟨_, if_pos hroom⟩
  | text x => exact ⟨_, rfl⟩
  | array hreach _ ih =>
    obtain ⟨blocks, hblocks⟩ := exists_itemLines ih
    exact ⟨_, valueLines_array hblocks hreach⟩
  | table hreach _ ih =>
    obtain ⟨blocks, hblocks⟩ := exists_itemLines (List.forall_mem_map.mpr ih)
    exact ⟨_, valueLines_table (by rw [fieldLines_eq, hblocks]; rfl) hreach⟩

theorem Blocked.valueLines_eq (h : Blocked room depth v f) :
    valueLines room depth v = .error f := by
  induction h with
  | moment m => rfl
  | deepFloat x hroom => exact if_neg (Nat.not_lt.mpr hroom)
  | int hn =>
    refine bind_eq_error (.inl ?_)
    rw [intText, if_neg (Nat.not_lt.mpr hn)]
  | deepArray hreach => exact bind_eq_error (.inl (reach_of_not_reaches hreach))
  | deepTable hreach => exact bind_eq_error (.inl (reach_of_not_reaches hreach))
  | item hreach hbefore _ ih =>
    have hitems := itemLines_eq_error (fun other hother => (hbefore other hother).exists_valueLines)
      ih
    rw [valueLines, reach_of_reaches hreach, hitems]
    rfl
  | field hreach hbefore _ ih =>
    have hitems := itemLines_eq_error (List.forall_mem_map.mpr fun other hother =>
      (hbefore other hother).exists_valueLines) ih
    rw [valueLines, reach_of_reaches hreach, fieldLines_eq, List.map_append, List.map_cons, hitems]
    rfl

theorem hasForm_or_blocked (room : Nat) (v : Value) :
    ∀ depth, HasForm room depth v ∨ ∃ f, Blocked room depth v f := by
  induction v using Value.induction with
  | null => exact fun _ => .inl .null
  | bool b => exact fun _ => .inl (.bool b)
  | int n => exact fun _ => (Nat.lt_or_ge n.natAbs _).imp .int fun hn => ⟨_, .int hn⟩
  | float x =>
    exact fun depth => (Nat.lt_or_ge depth room).imp (.float x) fun hroom => ⟨_, .deepFloat x hroom⟩
  | text x => exact fun _ => .inl (.text x)
  | moment m => exact fun _ => .inr ⟨_, .moment m⟩
  | array items ih =>
    intro depth
    by_cases hreach : Reaches room depth items.isEmpty
    · rcases forall_or_first fun item hitem => ih item hitem (depth + 1) with
        hall | ⟨before, item, after, rfl, hbefore, f, hf⟩
      · exact .inl (.array hreach hall)
      · exact .inr ⟨f, .item hreach hbefore hf⟩
    · exact .inr ⟨_, .deepArray hreach⟩
  | table fields ih =>
    intro depth
    by_cases hreach : Reaches room depth fields.isEmpty
    · rcases forall_or_first fun field hfield => ih field hfield (depth + 1) with
        hall | ⟨before, field, after, rfl, hbefore, f, hf⟩
      · exact .inl (.table hreach hall)
      · exact .inr ⟨f, .field hreach hbefore hf⟩
    · exact .inr ⟨_, .deepTable hreach⟩

theorem HasForm.exists_print (h : HasForm room 0 v) : ∃ document, print room v = .ok document := by
  obtain ⟨lines, hlines⟩ := h.exists_valueLines
  exact ⟨_, bind_eq_ok.mpr ⟨lines, hlines, rfl⟩⟩

theorem Blocked.print_eq (h : Blocked room 0 v f) : print room v = .error f :=
  bind_eq_error (.inl h.valueLines_eq)

end Json

end Paddock
