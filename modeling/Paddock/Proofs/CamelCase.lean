import Paddock.Proofs.Pieces
import Paddock.Proofs.SnakeCase

/-!
# Keys made of words

A key of several words may be written in camel case, with dashes or with underscores. All three come
to the same key, the one with underscores, provided that no word of a single letter stands between
two others: in camel case its letter would not be told from the start of the next word.
-/

namespace Paddock.Settings

set_option autoImplicit false

open Text (joinWith)

variable {x word first : Text} {g next separator : Glyph} {words : List Text} {c : Char}

/-- A small ASCII letter, and after it such letters and digits. -/
def isKeyWord : Text → Bool
  | .char c :: rest => ('a' ≤ c && c ≤ 'z') && rest.all endsHump
  | _ => false

def capitalized : Text → Text
  | .char c :: rest => .char c.toUpper :: rest
  | x => x

/-- The words run together, each after the first with a capital. -/
def camel : List Text → Text
  | [] => []
  | word :: words => word ++ words.flatMap capitalized

def dashed (words : List Text) : Text := joinWith [.char '-'] words

def snake (words : List Text) : Text := joinWith [.char '_'] words

theorem capital_of_letter : ∀ n < 128, endsHump (.char (Char.ofNat n)) = true →
    'a' ≤ Char.ofNat n → startsHump (.char (Char.ofNat n).toUpper) = true ∧
      Glyph.lower (.char (Char.ofNat n).toUpper) = [.char (Char.ofNat n)] := by decide

theorem isSmall_of_code : ∀ n < 128, endsHump (.char (Char.ofNat n)) = true →
    Char.ofNat n ≠ 'Σ' ∧ Glyph.lower (.char (Char.ofNat n)) = [.char (Char.ofNat n)] := by
  decide

theorem toNat_lt_of_endsHump (h : endsHump (.char c) = true) : c.toNat < 128 := by
  simp only [endsHump, Bool.or_eq_true, Bool.and_eq_true, decide_eq_true_eq] at h
  rcases h with ⟨-, h⟩ | ⟨-, h⟩
  · exact Nat.lt_of_le_of_lt (UInt32.le_iff_toNat_le.mp h) (by decide)
  · exact Nat.lt_of_le_of_lt (UInt32.le_iff_toNat_le.mp h) (by decide)

theorem isSmall_of_endsHump (h : endsHump g = true) : g.IsSmall := by
  cases g with
  | raw low => exact nomatch h
  | char c =>
    have hsmall := isSmall_of_code c.toNat (toNat_lt_of_endsHump h)
    rw [Char.ofNat_toNat] at hsmall
    obtain ⟨hsigma, hlower⟩ := hsmall h
    exact ⟨fun heq => hsigma (Glyph.char.inj heq), hlower⟩

/-- A letter that a word starts with, and what its capital does. -/
structure IsInitial (c : Char) : Prop where
  ends : endsHump (.char c) = true
  starts : startsHump (.char c.toUpper) = true
  lower_eq : Glyph.lower (.char c.toUpper) = [.char c]

theorem exists_of_isKeyWord (h : isKeyWord word = true) :
    ∃ c rest, word = .char c :: rest ∧ IsInitial c ∧ ∀ g ∈ rest, endsHump g = true := by
  unfold isKeyWord at h
  split at h
  · next c rest =>
    rw [Bool.and_eq_true, Bool.and_eq_true, decide_eq_true_eq, decide_eq_true_eq] at h
    obtain ⟨⟨ha, hz⟩, hrest⟩ := h
    have hends : endsHump (.char c) = true := by simp [endsHump, ha, hz]
    have hcapital := capital_of_letter c.toNat (toNat_lt_of_endsHump hends)
    rw [Char.ofNat_toNat] at hcapital
    obtain ⟨hstarts, hlower⟩ := hcapital hends ha
    exact ⟨c, rest, rfl, ⟨hends, hstarts, hlower⟩, List.all_eq_true.mp hrest⟩
  · exact nomatch h

theorem endsHump_of_mem (h : isKeyWord word = true) : ∀ g ∈ word, endsHump g = true := by
  obtain ⟨c, rest, rfl, hc, hrest⟩ := exists_of_isKeyWord h
  exact List.forall_mem_cons.mpr ⟨hc.ends, hrest⟩

theorem isSmall_of_mem (h : isKeyWord word = true) : ∀ g ∈ word, g.IsSmall :=
  fun g hg => isSmall_of_endsHump (endsHump_of_mem h g hg)

theorem eq_or_endsHump_of_mem_joinWith (hwords : ∀ word ∈ words, isKeyWord word = true)
    (h : g ∈ joinWith [separator] words) : g = separator ∨ endsHump g = true := by
  rcases Text.mem_of_mem_joinWith h with h | ⟨word, hword, h⟩
  · exact .inl (List.mem_singleton.mp h)
  · exact .inr (endsHump_of_mem (hwords word hword) g h)

theorem isSmall_of_mem_snake (hwords : ∀ word ∈ words, isKeyWord word = true) :
    ∀ g ∈ snake words, g.IsSmall := by
  intro g hg
  rcases eq_or_endsHump_of_mem_joinWith hwords hg with rfl | hg
  · exact ⟨by decide, by decide⟩
  · exact isSmall_of_endsHump hg

theorem dash_not_mem_snake (hwords : ∀ word ∈ words, isKeyWord word = true) :
    .char '-' ∉ snake words := by
  intro h
  rcases eq_or_endsHump_of_mem_joinWith hwords h with h | h
  · exact absurd h (by decide)
  · exact absurd h (by decide)

theorem normalizeKey_snake (hwords : ∀ word ∈ words, isKeyWord word = true) :
    normalizeKey (snake words) = snake words :=
  normalizeKey_eq_self (isSmall_of_mem_snake hwords) (dash_not_mem_snake hwords)

theorem startsHump_of_mem_dashed (hwords : ∀ word ∈ words, isKeyWord word = true) :
    ∀ g ∈ dashed words, startsHump g = false := by
  intro g hg
  rcases eq_or_endsHump_of_mem_joinWith hwords hg with rfl | hg
  · decide
  · exact not_startsHump (isSmall_of_endsHump hg)

theorem undash_eq_flatMap (x : Text) :
    undash x = x.flatMap fun g => [if g = .char '-' then .char '_' else g] :=
  List.map_eq_flatMap ..

theorem undash_dashed (hwords : ∀ word ∈ words, isKeyWord word = true) :
    undash (dashed words) = snake words := by
  have hword : ∀ word ∈ words, undash word = word := by
    intro word hword
    apply undash_eq_self
    intro hdash
    exact absurd (endsHump_of_mem (hwords word hword) _ hdash) (by decide)
  rw [undash_eq_flatMap, dashed, Text.flatMap_joinWith, ← funext undash_eq_flatMap,
    List.map_congr_left hword, List.map_id']
  rfl

theorem normalizeKey_dashed (hwords : ∀ word ∈ words, isKeyWord word = true) :
    normalizeKey (dashed words) = snake words := by
  rw [normalizeKey, splitHumps_eq_self (startsHump_of_mem_dashed hwords), undash_dashed hwords,
    Text.lower_eq_self (isSmall_of_mem_snake hwords)]

theorem splitHumps_cons_cons (g next : Glyph) (x : Text) :
    splitHumps (g :: next :: x) = (if endsHump g && startsHump next then [g, .char '_'] else [g]) ++
      splitHumps (next :: x) := by
  rw [splitHumps]
  split <;> rfl

theorem splitHumps_append_hump (hg : endsHump g = true) (hnext : startsHump next = true)
    (x y : Text) : splitHumps (x ++ g :: next :: y) =
      splitHumps (x ++ [g]) ++ .char '_' :: splitHumps (next :: y) := by
  induction x with
  | nil =>
    rw [List.nil_append, splitHumps_cons_cons, if_pos (by simp [hg, hnext])]
    rfl
  | cons a x ih =>
    cases x with
    | nil =>
      show splitHumps (a :: g :: next :: y) = splitHumps (a :: g :: []) ++ _
      rw [splitHumps_cons_cons a g (next :: y), splitHumps_cons_cons a g [], List.append_assoc]
      exact congrArg _ ih
    | cons b x =>
      show splitHumps (a :: b :: (x ++ g :: next :: y)) = splitHumps (a :: b :: (x ++ [g])) ++ _
      rw [splitHumps_cons_cons a b, splitHumps_cons_cons a b, List.append_assoc]
      exact congrArg _ ih

def ClosesHump (x : Text) : Prop := ∃ front g, x = front ++ [g] ∧ endsHump g = true

theorem closesHump_append (hne : x ≠ []) (h : ∀ g ∈ x, endsHump g = true) (front : Text) :
    ClosesHump (front ++ x) := by
  refine ⟨front ++ x.dropLast, x.getLast hne, ?_, h _ (List.getLast_mem hne)⟩
  rw [List.append_assoc, List.dropLast_append_getLast hne]

theorem closesHump_of_isKeyWord (h : isKeyWord word = true) : ClosesHump word := by
  have hne : word ≠ [] := by
    rintro rfl
    exact nomatch h
  exact closesHump_append hne (endsHump_of_mem h) []

/-- By induction on the words that follow: each but the last leaves a small letter or a digit before
the capital of the next. -/
theorem splitHumps_append_capitalized (hwords : ∀ word ∈ words, isKeyWord word = true)
    (hinner : ∀ word ∈ words.dropLast, 2 ≤ word.length) (hx : words ≠ [] → ClosesHump x) :
    splitHumps (x ++ words.flatMap capitalized) =
      joinWith [.char '_'] (splitHumps x :: words.map capitalized) := by
  induction words generalizing x with
  | nil => simp [joinWith]
  | cons word words ih =>
    obtain ⟨front, g, rfl, hg⟩ := hx (List.cons_ne_nil _ _)
    obtain ⟨hword, hlater⟩ := List.forall_mem_cons.mp hwords
    obtain ⟨c, rest, rfl, hc, hrest⟩ := exists_of_isKeyWord hword
    have hself : splitHumps (.char c.toUpper :: rest) = .char c.toUpper :: rest :=
      splitHumps_cons_eq_self fun g hg => not_startsHump (isSmall_of_endsHump (hrest g hg))
    have hinner' : ∀ word ∈ words.dropLast, 2 ≤ word.length := by
      intro word hword
      cases words with
      | nil => exact absurd hword List.not_mem_nil
      | cons => exact hinner word (List.mem_cons_of_mem _ hword)
    have hcloses : words ≠ [] → ClosesHump (.char c.toUpper :: rest) := by
      intro hne
      obtain ⟨second, others, rfl⟩ := List.exists_cons_of_ne_nil hne
      have hlength := hinner _ List.mem_cons_self
      have hrestne : rest ≠ [] := by
        rintro rfl
        simp at hlength
      exact closesHump_append hrestne hrest [.char c.toUpper]
    have hrec := ih hlater hinner' hcloses
    rw [hself] at hrec
    rw [List.flatMap_cons, List.append_assoc, List.singleton_append, capitalized, List.cons_append,
      splitHumps_append_hump hg hc.starts, ← List.cons_append, hrec, List.map_cons, joinWith,
      List.append_assoc]
    rfl

theorem flatMap_lower_capitalized (h : isKeyWord word = true) :
    (capitalized word).flatMap Glyph.lower = word := by
  obtain ⟨c, rest, rfl, hc, hrest⟩ := exists_of_isKeyWord h
  rw [capitalized, List.flatMap_cons, hc.lower_eq,
    Text.flatMap_lower_eq_self fun g hg => isSmall_of_endsHump (hrest g hg)]
  rfl

theorem hump_of_mem_capitalized (h : isKeyWord word = true) (hg : g ∈ capitalized word) :
    endsHump g = true ∨ startsHump g = true := by
  obtain ⟨c, rest, rfl, hc, hrest⟩ := exists_of_isKeyWord h
  rcases List.mem_cons.mp hg with rfl | hg
  · exact .inr hc.starts
  · exact .inl (hrest g hg)

theorem not_mem_joinWith_capitalized (hfirst : isKeyWord first = true)
    (hwords : ∀ word ∈ words, isKeyWord word = true)
    (hg : g ≠ .char '_' ∧ endsHump g = false ∧ startsHump g = false) :
    g ∉ joinWith [.char '_'] (first :: words.map capitalized) := by
  intro hmem
  have hhump : endsHump g = true ∨ startsHump g = true := by
    rcases Text.mem_of_mem_joinWith hmem with hsame | ⟨piece, hpiece, hin⟩
    · exact absurd (List.mem_singleton.mp hsame) hg.1
    rcases List.mem_cons.mp hpiece with rfl | hpiece
    · exact .inl (endsHump_of_mem hfirst g hin)
    · obtain ⟨word, hword, rfl⟩ := List.mem_map.mp hpiece
      exact hump_of_mem_capitalized (hwords word hword) hin
  rw [hg.2.1, hg.2.2] at hhump
  exact absurd hhump (by decide)

theorem normalizeKey_camel (hwords : ∀ word ∈ words, isKeyWord word = true)
    (hinner : ∀ word ∈ words.tail.dropLast, 2 ≤ word.length) :
    normalizeKey (camel words) = snake words := by
  cases words with
  | nil => rfl
  | cons first words =>
    obtain ⟨hfirst, hlater⟩ := List.forall_mem_cons.mp hwords
    have hsmall := isSmall_of_mem hfirst
    have hself : splitHumps first = first :=
      splitHumps_eq_self fun g hg => not_startsHump (hsmall g hg)
    have hdash := not_mem_joinWith_capitalized (g := .char '-') hfirst hlater (by decide)
    have hsigma := not_mem_joinWith_capitalized (g := .char 'Σ') hfirst hlater (by decide)
    have hlower : (words.map capitalized).map (fun x => x.flatMap Glyph.lower) = words := by
      rw [List.map_map]
      exact (List.map_congr_left fun word hword =>
        flatMap_lower_capitalized (hlater word hword)).trans (List.map_id' words)
    have hunderscore : [Glyph.char '_'].flatMap Glyph.lower = [.char '_'] := by decide
    calc normalizeKey (camel (first :: words))
      _ = Text.lower (undash (joinWith [.char '_'] (first :: words.map capitalized))) := by
        rw [normalizeKey, camel, splitHumps_append_capitalized hlater hinner
          fun _ => closesHump_of_isKeyWord hfirst, hself]
      _ = (joinWith [.char '_'] (first :: words.map capitalized)).flatMap Glyph.lower := by
        rw [undash_eq_self hdash, Text.lower, Text.lowerFrom_eq_flatMap hsigma]
      _ = snake (first :: words) := by
        rw [Text.flatMap_joinWith, List.map_cons, Text.flatMap_lower_eq_self hsmall, hlower,
          hunderscore, snake]

theorem normalizeKey_spellings (hwords : ∀ word ∈ words, isKeyWord word = true)
    (hinner : ∀ word ∈ words.tail.dropLast, 2 ≤ word.length) :
    normalizeKey (camel words) = snake words ∧ normalizeKey (dashed words) = snake words ∧
      normalizeKey (snake words) = snake words :=
  ⟨normalizeKey_camel hwords hinner, normalizeKey_dashed hwords, normalizeKey_snake hwords⟩

/-- Words with digits before a capital, and single letters at both ends. -/
def edgeWords : List Text := ["a", "mode2", "x9", "b"]

theorem normalizeKey_spellings_edgeWords :
    ((∀ word ∈ edgeWords, isKeyWord word = true) ∧
      ∀ word ∈ edgeWords.tail.dropLast, 2 ≤ word.length) ∧
    normalizeKey (camel edgeWords) = snake edgeWords ∧
      normalizeKey (dashed edgeWords) = snake edgeWords ∧
      normalizeKey (snake edgeWords) = snake edgeWords :=
  ⟨by decide +kernel, normalizeKey_spellings (by decide +kernel) (by decide +kernel)⟩

-- a single letter between two words is taken for the start of the last
example : normalizeKey (camel ["at", "a", "time"]) = "at_atime" := by decide

end Paddock.Settings
