import Paddock.Proofs.Nesting

/-!
# Documents

The document of a value is read back as the value. If there are numbers in it that are not finite,
only the reader takes it that has names for them.
-/

namespace Paddock

set_option autoImplicit false

/-- Floats are in lowest form and no table has a key twice. -/
inductive Value.Sound : Value → Prop where
  | null : Sound .null
  | bool (b : Bool) : Sound (.bool b)
  | int (n : ℤ) : Sound (.int n)
  | float {f : Binary64} (hf : f.IsCanonical) : Sound (.float f)
  | text (x : Text) : Sound (.text x)
  | moment (m : Moment) : Sound (.moment m)
  | array {items : List Value} (hitems : ∀ item ∈ items, Sound item) : Sound (.array items)
  | table {fields : Table} (hkeys : (Fields.keys fields).Nodup)
      (hfields : ∀ field ∈ fields, Sound field.2) : Sound (.table fields)

mutual

/-- All floats within a value are finite. -/
def Value.isFinite : Value → Bool
  | .float f => f.isFinite
  | .array items => itemsFinite items
  | .table fields => fieldsFinite fields
  | _ => true

def itemsFinite : List Value → Bool
  | [] => true
  | item :: rest => item.isFinite && itemsFinite rest

def fieldsFinite : List (Text × Value) → Bool
  | [] => true
  | (_, value) :: rest => value.isFinite && fieldsFinite rest

end

namespace Fields

variable {α : Type} {fields : Fields α} {key : Text}

theorem put_of_not_mem (h : key ∉ keys fields) (value : α) :
    put fields key value = fields ++ [(key, value)] := by
  induction fields with
  | nil => rfl
  | cons field rest ih =>
    obtain ⟨k, old⟩ := field
    obtain ⟨hk, hrest⟩ := not_or.mp (mt List.mem_cons.mpr h)
    rw [put, if_neg (Ne.symm hk), ih hrest, List.cons_append]

theorem ofList_of_nodup (h : (keys fields).Nodup) : ofList fields = fields := by
  -- what has been put so far is generalized, so that the new keys are compared with it
  have hfold : ∀ (rest done : List (Text × α)), (keys (done ++ rest)).Nodup →
      rest.foldl (fun done field => put done field.1 field.2) done = done ++ rest := by
    intro rest
    induction rest with
    | nil => intro done _; exact (List.append_nil done).symm
    | cons field rest ih =>
      intro done hdone
      have hnew : field.1 ∉ keys done := by
        intro hmem
        rw [keys, List.map_append, List.map_cons] at hdone
        exact (List.nodup_append.mp hdone).2.2 _ hmem _ List.mem_cons_self rfl
      rw [List.foldl_cons, put_of_not_mem hnew, ih, List.append_assoc]
      · rfl
      · rwa [List.append_assoc]
  exact hfold fields [] h

end Fields

namespace Json

variable {wide : Bool} {v : Value} {room depth : ℕ} {line : Line} {lines rest : List Line}
  {items : List Value} {fields : List (Text × Value)} {blocks : List (List Line)}

def margin (depth : ℕ) : Text := Text.newline :: List.replicate (2 * depth) Text.space

/-- The text of lines that stand below others. -/
def below (lines : List Line) : Text := lines.flatMap fun line => margin line.depth ++ line.text

/-- The text of lines of which the first goes on a line. -/
def body : List Line → Text
  | [] => []
  | line :: rest => line.text ++ below rest

theorem isGap_margin (depth : ℕ) : IsGap (margin depth) := by
  intro g hg
  rcases List.mem_cons.mp hg with rfl | hg
  · rfl
  · rw [List.eq_of_mem_replicate hg]
    rfl

theorem unlines_indented (line : Line) (lines : List Line) :
    Text.unlines ((line :: lines).map Line.indented) = line.indented ++ below lines := by
  induction lines generalizing line with
  | nil => exact (List.append_nil _).symm
  | cons next lines ih =>
    have hjoin : Text.unlines ((line :: next :: lines).map Line.indented) =
        line.indented ++ [Text.newline] ++ Text.unlines ((next :: lines).map Line.indented) := rfl
    rw [hjoin, ih next]
    simp [below, margin, Line.indented]

/-- The first of some lines stands this deep. -/
def Opens (depth : ℕ) (lines : List Line) : Prop :=
  ∃ text rest, lines = ⟨depth, text⟩ :: rest

theorem Opens.ne_nil (h : Opens depth lines) : lines ≠ [] := by
  obtain ⟨text, rest, rfl⟩ := h
  exact List.cons_ne_nil _ _

theorem Opens.below_eq (h : Opens depth lines) : below lines = margin depth ++ body lines := by
  obtain ⟨text, rest, rfl⟩ := h
  simp [below, body]

theorem Opens.startWith (h : Opens depth lines) (front : Text) :
    Opens depth (startWith front lines) ∧ body (startWith front lines) = front ++ body lines := by
  obtain ⟨text, rest, rfl⟩ := h
  exact ⟨⟨front ++ text, rest, rfl⟩, List.append_assoc front text (below rest)⟩

theorem below_endWith (back : Text) (h : lines ≠ []) :
    below (endWith back lines) = below lines ++ back := by
  induction lines with
  | nil => exact absurd rfl h
  | cons line rest ih =>
    cases rest with
    | nil => simp [endWith, below]
    | cons next rest =>
      have hrest := ih (List.cons_ne_nil next rest)
      have hline (tail : List Line) :
          below (line :: tail) = margin line.depth ++ line.text ++ below tail := rfl
      rw [endWith, hline, hline, hrest]
      · exact (List.append_assoc _ _ back).symm
      · exact List.cons_ne_nil next rest

theorem below_append (lines rest : List Line) :
    below (lines ++ rest) = below lines ++ below rest := List.flatMap_append

theorem below_separated_cons (h : lines ≠ []) (hblocks : blocks ≠ []) :
    below (separated (lines :: blocks)) = below lines ++ .char ',' :: below (separated blocks) := by
  cases blocks with
  | nil => exact absurd rfl hblocks
  | cons next blocks =>
    rw [separated, below_append, below_endWith _ h, List.append_assoc]
    · rfl
    · exact List.cons_ne_nil next blocks

theorem body_block (opening closing : Char) (depth : ℕ) (h : blocks ≠ []) :
    body (block opening closing depth blocks) =
      .char opening :: (below (separated blocks) ++ (margin depth ++ [.char closing])) := by
  rw [block, if_neg h]
  show [.char opening] ++ below (separated blocks ++ [⟨depth, [.char closing]⟩]) = _
  rw [below_append]
  simp [below]

theorem opens_block (opening closing : Char) (depth : ℕ) (blocks : List (List Line)) :
    Opens depth (block opening closing depth blocks) := by
  unfold block
  split
  · exact ⟨_, _, rfl⟩
  · exact ⟨_, _, rfl⟩

theorem opens_valueLines (h : valueLines room depth v = .ok lines) : Opens depth lines := by
  cases v with
  | null =>
    cases h
    exact ⟨_, _, rfl⟩
  | bool b =>
    cases b <;> cases h <;> exact ⟨_, _, rfl⟩
  | int n =>
    obtain ⟨text, -, htext⟩ := bind_eq_ok.mp h
    cases htext
    exact ⟨_, _, rfl⟩
  | float f =>
    obtain rfl := eq_of_float h
    exact ⟨_, _, rfl⟩
  | text x =>
    cases h
    exact ⟨_, _, rfl⟩
  | moment m => exact nomatch h
  | array items =>
    obtain ⟨blocks, -, rfl⟩ := exists_blocks_of_array h
    exact opens_block _ _ depth blocks
  | table fields =>
    obtain ⟨blocks, -, rfl⟩ := exists_blocks_of_table h
    exact opens_block _ _ depth blocks

theorem itemLines_ne_nil (hitems : items ≠ []) (h : itemLines room depth items = .ok blocks) :
    blocks ≠ [] := by
  cases items with
  | nil => exact absurd rfl hitems
  | cons item items =>
    obtain ⟨lines, more, -, -, rfl⟩ := itemLines_cons.mp h
    exact List.cons_ne_nil lines more

theorem fieldLines_ne_nil (hfields : fields ≠ []) (h : fieldLines room depth fields = .ok blocks) :
    blocks ≠ [] := by
  cases fields with
  | nil => exact absurd rfl hfields
  | cons field fields =>
    obtain ⟨lines, more, -, -, rfl⟩ := fieldLines_cons.mp h
    exact List.cons_ne_nil (startWith (keyText field.1) lines) more

/-- Values are read back one by one from what is printed for them. -/
def ReadBack (wide : Bool) (v : Value) : Prop :=
  ∀ room depth lines, valueLines room depth v = .ok lines →
    Reads wide (body lines) (wide || v.isFinite) v

theorem itemsRead_itemLines (hitems : items ≠ []) (ih : ∀ item ∈ items, ReadBack wide item)
    (h : itemLines room depth items = .ok blocks) (outer : ℕ) :
    ItemsRead wide (below (separated blocks) ++ (margin outer ++ [.char ']']))
      (wide || itemsFinite items) items := by
  induction items generalizing blocks with
  | nil => exact absurd rfl hitems
  | cons item items hrest =>
    obtain ⟨hitem, ih⟩ := List.forall_mem_cons.mp ih
    obtain ⟨lines, more, hlines, hmore, rfl⟩ := itemLines_cons.mp h
    have hopens := opens_valueLines hlines
    have hread : Reads wide (below lines) (wide || item.isFinite) item := by
      rw [hopens.below_eq]
      exact (hitem room depth lines hlines).gap_append (isGap_margin depth)
    rw [itemsFinite, Bool.or_and_distrib_left]
    -- only the last item is followed by the bracket, the others by a comma
    by_cases hlast : items = []
    · subst hlast
      cases hmore
      rw [itemsFinite, Bool.or_true, Bool.and_true]
      exact itemsRead_singleton hread (isGap_margin outer)
    · rw [below_separated_cons hopens.ne_nil (itemLines_ne_nil hlast hmore), List.append_assoc,
        List.cons_append]
      exact itemsRead_cons hread (hrest hlast ih hmore)

theorem membersRead_fieldLines (hfields : fields ≠ [])
    (ih : ∀ field ∈ fields, ReadBack wide field.2)
    (h : fieldLines room depth fields = .ok blocks) (outer : ℕ) :
    MembersRead wide (below (separated blocks) ++ (margin outer ++ [.char '\x7d']))
      (wide || fieldsFinite fields) fields := by
  induction fields generalizing blocks with
  | nil => exact absurd rfl hfields
  | cons field fields hrest =>
    obtain ⟨hfield, ih⟩ := List.forall_mem_cons.mp ih
    obtain ⟨lines, more, hlines, hmore, rfl⟩ := fieldLines_cons.mp h
    obtain ⟨hopens, hbody⟩ := (opens_valueLines hlines).startWith (keyText field.1)
    have hread := hfield room depth lines hlines
    have hbelow : below (startWith (keyText field.1) lines) =
        margin depth ++ keyText field.1 ++ body lines := by
      rw [hopens.below_eq, hbody, List.append_assoc]
    rw [fieldsFinite, Bool.or_and_distrib_left]
    by_cases hlast : fields = []
    · subst hlast
      cases hmore
      rw [fieldsFinite, Bool.or_true, Bool.and_true, separated, hbelow]
      exact membersRead_singleton (isGap_margin depth) field.1 hread (isGap_margin outer)
    · rw [below_separated_cons hopens.ne_nil (fieldLines_ne_nil hlast hmore), hbelow,
        List.append_assoc, List.cons_append]
      exact membersRead_cons (isGap_margin depth) field.1 hread (hrest hlast ih hmore)

theorem body_singleton (depth : ℕ) (x : Text) : body [⟨depth, x⟩] = x := List.append_nil x

theorem readBack_of_sound (hsound : v.Sound) : ReadBack wide v := by
  induction hsound with
  | null =>
    intro room depth lines h
    cases h
    simp only [body_singleton, Value.isFinite, Bool.or_true]
    exact reads_null wide
  | bool b =>
    intro room depth lines h
    have hread := reads_bool wide b
    cases b <;> cases h <;> simpa [body_singleton, Value.isFinite] using hread
  | int n =>
    intro room depth lines h
    obtain ⟨text, htext, hlines⟩ := bind_eq_ok.mp h
    obtain rfl := eq_ofInt_of_intText htext
    cases hlines
    simp only [body_singleton, Value.isFinite, Bool.or_true]
    exact reads_int wide n
  | float hf =>
    intro room depth lines h
    obtain rfl := eq_of_float h
    rw [body_singleton]
    exact reads_float hf wide
  | text x =>
    intro room depth lines h
    cases h
    simp only [body_singleton, Value.isFinite, Bool.or_true]
    exact reads_text wide x
  | moment m => exact nofun
  | @array items _ ih =>
    intro room depth lines h
    obtain ⟨blocks, hblocks, rfl⟩ := exists_blocks_of_array h
    -- brackets without items stand together, all others on lines of their own
    by_cases hitems : items = []
    · subst hitems
      cases hblocks
      simpa [block, body_singleton, Value.isFinite, itemsFinite] using reads_array_nil wide
    · rw [body_block _ _ depth (itemLines_ne_nil hitems hblocks)]
      exact reads_array (itemsRead_itemLines hitems ih hblocks depth)
  | @table fields hkeys _ ih =>
    intro room depth lines h
    obtain ⟨blocks, hblocks, rfl⟩ := exists_blocks_of_table h
    by_cases hfields : fields = []
    · subst hfields
      cases hblocks
      simpa [block, body_singleton, Value.isFinite, fieldsFinite] using reads_table_nil wide
    · rw [body_block _ _ depth (fieldLines_ne_nil hfields hblocks)]
      have hread := reads_table (membersRead_fieldLines hfields ih hblocks depth)
      rwa [Fields.ofList_of_nodup hkeys] at hread

/-- The document of a sound value holds it, for the strict reader unless there are numbers that are
not finite. -/
theorem read_print {document : Text} (hsound : v.Sound) (h : print room v = .ok document)
    (wide : Bool) :
    read wide document = if wide || v.isFinite then some v else none := by
  obtain ⟨lines, hlines, hdocument⟩ := bind_eq_ok.mp h
  obtain ⟨text, rest, rfl⟩ := opens_valueLines hlines
  obtain rfl : document = body (⟨0, text⟩ :: rest) := by
    rw [unlines_indented] at hdocument
    exact (Except.ok.inj hdocument).symm
  have hback : ReadBack wide v := readBack_of_sound hsound
  have hread := (hback room 0 _ hlines).reads _ [] (Nat.le_succ _) ended_nil
  rw [List.append_nil] at hread
  rw [read, hread]
  cases wide || v.isFinite <;> rfl

end Json

end Paddock
