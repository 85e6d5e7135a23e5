import CodeTemplate.Proofs.Comment.Paragraph
import CodeTemplate.Proofs.Number.Order

/-! Words filled into lines. The lines are consecutive runs of the words, and each of them is as
wide as a line may be or is a single word; the rows of a layout are the runs of its paragraphs, with
an empty row between two of them. -/

namespace CodeTemplate.Comment

open Text

/-- The words as one line. -/
def unwords (words : List String) : String := " ".intercalate words

theorem unwords_concat {ws : List String} (hne : ws ≠ []) (w : String) :
    unwords (ws ++ [w]) = unwords ws ++ " " ++ w := by
  induction ws with
  | nil => exact absurd rfl hne
  | cons v ws ih =>
    cases ws with
    | nil => simp [unwords, String.intercalate_cons_cons]
    | cons u ws =>
      have hrest : unwords (u :: ws ++ [w]) = unwords (u :: ws) ++ " " ++ w :=
        ih (List.cons_ne_nil u ws)
      simp only [unwords, List.cons_append, String.intercalate_cons_cons] at hrest ⊢
      rw [hrest]
      simp [String.append_assoc]

theorem unwords_ne_empty {ws : List String} (hne : ws ≠ []) (h : ∀ w ∈ ws, w ≠ "") :
    unwords ws ≠ "" := by
  obtain ⟨v, ws, rfl⟩ := List.exists_cons_of_ne_nil hne
  have hv : v ≠ "" := h v List.mem_cons_self
  cases ws with
  | nil => simpa [unwords] using hv
  | cons u ws => simp [unwords, String.intercalate_cons_cons, hv]

theorem units_append (s t : String) : units (s ++ t) = units s + units t := by
  simp [units]

theorem units_unwords_concat {ws : List String} (hne : ws ≠ []) (word : String) :
    units (unwords (ws ++ [word])) = units (unwords ws) + 1 + units word := by
  rw [unwords_concat hne, units_append, units_append]
  rfl

/-- The runs cut the words into lines of the width, apart from lines of a single word. -/
structure Cut (w : Width) (words : List String) (runs : List (List String)) : Prop where
  flatten : runs.flatten = words
  nonempty : [] ∉ runs
  fits : ∀ run ∈ runs, w.fits (units (unwords run)) = true ∨ run.length = 1

/-- The runs of words that lines are filled with, behind the words of the line that is open. -/
def fillRuns (w : Width) (current : List String) : List String → List (List String)
  | [] => if current = [] then [] else [current]
  | word :: words =>
    if current = [] then fillRuns w [word] words
    else if w.fits (units (unwords current) + 1 + units word) then
      fillRuns w (current ++ [word]) words
    else current :: fillRuns w [word] words

theorem fillFrom_eq (w : Width) (current words : List String)
    (h : ∀ word ∈ current ++ words, word ≠ "") :
    fillFrom w (unwords current) words = (fillRuns w current words).map unwords := by
  induction words generalizing current with
  | nil =>
    by_cases hcur : current = []
    · simp [fillFrom, fillRuns, hcur, unwords]
    · have hne : unwords current ≠ "" := unwords_ne_empty hcur (by simpa using h)
      simp [fillFrom, fillRuns, hcur, hne]
  | cons word words ih =>
    have hone : unwords [word] = word := by simp [unwords]
    have hrest : ∀ v ∈ [word] ++ words, v ≠ "" := fun v hv => h v (List.mem_append_right _ hv)
    by_cases hcur : current = []
    · simpa [fillFrom, fillRuns, hcur, unwords] using ih _ hrest
    · have hne : unwords current ≠ "" :=
        unwords_ne_empty hcur fun v hv => h v (List.mem_append_left _ hv)
      simp only [fillFrom, fillRuns, hcur, hne, ↓reduceIte]
      split
      · rw [← unwords_concat hcur]
        exact ih _ (by simpa using h)
      · rw [List.map_cons, ← ih _ hrest, hone]

/-- The open line is not too wide, or it is a single word. -/
theorem cut_fillRuns (w : Width) {current words : List String}
    (h : w.fits (units (unwords current)) = true ∨ current.length ≤ 1) :
    Cut w (current ++ words) (fillRuns w current words) := by
  induction words generalizing current with
  | nil =>
    by_cases hcur : current = []
    · rw [fillRuns, if_pos hcur, hcur]
      exact ⟨rfl, by simp, by simp⟩
    · have hpos : 0 < current.length := List.length_pos_iff.2 hcur
      have hfits : w.fits (units (unwords current)) = true ∨ current.length = 1 :=
        h.imp_right fun hle => by omega
      rw [fillRuns, if_neg hcur]
      exact ⟨by simp, by simpa using Ne.symm hcur, by simpa using hfits⟩
  | cons word words ih =>
    have hrest : Cut w ([word] ++ words) (fillRuns w [word] words) := ih (.inr (by simp))
    by_cases hcur : current = []
    · rw [fillRuns, if_pos hcur, hcur]
      exact hrest
    · have hpos : 0 < current.length := List.length_pos_iff.2 hcur
      rw [fillRuns, if_neg hcur]
      split
      · next hfit =>
        have hmore : Cut w (current ++ [word] ++ words) (fillRuns w (current ++ [word]) words) :=
          ih (.inl (units_unwords_concat hcur word ▸ hfit))
        rwa [List.append_assoc] at hmore
      · have hfits : w.fits (units (unwords current)) = true ∨ current.length = 1 :=
          h.imp_right fun hle => by omega
        refine ⟨?_, ?_, ?_⟩
        · rw [List.flatten_cons, hrest.flatten]
          rfl
        · rw [List.mem_cons, not_or]
          exact ⟨Ne.symm hcur, hrest.nonempty⟩
        · exact List.forall_mem_cons.2 ⟨hfits, hrest.fits⟩

/-! ### Layouts -/

/-- The room for words on a line, where so much of the width is taken. -/
def room (taken : ℕ) (w : Width) : Width := (w.minus taken).atLeast leastWidth

/-- The rows that paragraphs are laid out in, by their words. -/
def rows (w : Width) (ps : List (List String)) : List (List String) :=
  [[]].intercalate (ps.map (fillRuns w []))

/-- The row as a line; without words, only the lead is left. -/
def rowLine (lead : String) (row : List String) : String :=
  if row = [] then trimEnd lead else lead ++ unwords row

theorem map_intercalate {α β : Type} (f : α → β) (sep : List α) (ls : List (List α)) :
    (sep.intercalate ls).map f = (sep.map f).intercalate (ls.map (List.map f)) := by
  induction ls with
  | nil => rfl
  | cons l ls ih =>
    cases ls with
    | nil => simp
    | cons m ls =>
      rw [List.intercalate_cons_cons, List.map_append, List.map_append, ih]
      simp [List.intercalate_cons_cons]

section Rows

variable {w : Width} {ps : List (List String)} (hps : ∀ p ∈ ps, p ≠ [] ∧ ∀ word ∈ p, IsWord word)
include hps

theorem layout_eq (lead : String) :
    layout lead w ps = (rows (room (units lead) w) ps).map (rowLine lead) := by
  have hruns : ∀ p ∈ ps, (fillLines (room (units lead) w) p).map (lead ++ ·) =
      (fillRuns (room (units lead) w) [] p).map (rowLine lead) := by
    intro p hp
    have hcut : Cut (room (units lead) w) ([] ++ p) (fillRuns (room (units lead) w) [] p) :=
      cut_fillRuns _ (.inr (by simp))
    have hlines : fillLines (room (units lead) w) p =
        (fillRuns (room (units lead) w) [] p).map unwords :=
      fillFrom_eq _ [] p fun word hw => ((hps p hp).2 word hw).ne_empty
    rw [hlines, List.map_map]
    refine List.map_congr_left fun run hrun => ?_
    have hne : run ≠ [] := fun h => hcut.nonempty (h ▸ hrun)
    simp [rowLine, hne]
  rw [rows, map_intercalate, List.map_map]
  have hmap : ps.map (fun p => (fillLines (room (units lead) w) p).map (lead ++ ·)) =
      ps.map (List.map (rowLine lead) ∘ fillRuns (room (units lead) w) []) :=
    List.map_congr_left hruns
  rw [← hmap]
  simp [layout, room, rowLine]

/-- The rows have the paragraphs. -/
theorem parted_rows : Parted (rows w ps) ps := by
  have hcut : ∀ p ∈ ps, Cut w ([] ++ p) (fillRuns w [] p) := fun p _ =>
    cut_fillRuns _ (.inr (by simp))
  have hflat : (ps.map (fillRuns w [])).map List.flatten = ps := by
    rw [List.map_map]
    exact (List.map_congr_left fun p hp => (hcut p hp).flatten).trans (List.map_id' ps)
  have hblocks : ∀ block ∈ ps.map (fillRuns w []), block ≠ [] ∧ [] ∉ block := by
    intro block hb
    obtain ⟨p, hp, rfl⟩ := List.mem_map.1 hb
    refine ⟨fun hnil => (hps p hp).1 ?_, (hcut p hp).nonempty⟩
    have hwords := (hcut p hp).flatten
    rwa [hnil, List.flatten_nil, List.nil_append, eq_comm] at hwords
  have h := parted_intercalate hblocks
  rwa [hflat] at h

theorem rows_ne_nil (hne : ps ≠ []) : rows w ps ≠ [] := by
  intro hnil
  have h : Parted (rows w ps) ps := parted_rows hps
  rw [hnil] at h
  exact hne h.blocks_eq.symm

theorem layout_ne_nil (hne : ps ≠ []) (lead : String) : layout lead w ps ≠ [] := by
  rw [layout_eq hps, Ne, List.map_eq_nil_iff]
  exact rows_ne_nil hps hne

theorem isWord_of_mem_rows : ∀ row ∈ rows w ps, ∀ word ∈ row, IsWord word := by
  intro row hr word hw
  have hflat : word ∈ ps.flatten := by
    rw [(parted_rows (w := w) hps).flatten_eq]
    exact List.mem_flatten_of_mem hr hw
  obtain ⟨p, hp, hword⟩ := List.mem_flatten.1 hflat
  exact (hps p hp).2 word hword

end Rows

theorem fits_of_mem_rows {w : Width} {ps : List (List String)} :
    ∀ row ∈ rows w ps, row = [] ∨ row.length = 1 ∨ w.fits (units (unwords row)) = true := by
  intro row hr
  rcases mem_intercalate hr with h | ⟨runs, hruns, h⟩
  · exact .inl (List.mem_singleton.1 h)
  · obtain ⟨p, -, rfl⟩ := List.mem_map.1 hruns
    have hcut : Cut w ([] ++ p) (fillRuns w [] p) := cut_fillRuns _ (.inr (by simp))
    exact .inr (hcut.fits row h).symm

/-! ### Widths -/

theorem fits_ofNumber {x : Number} {n : ℕ} (h : (Width.ofNumber x).fits n = true) :
    n = 0 ∨ ∃ a, x.value? = some a ∧ Number.extended n ≤ a := by
  cases x with
  | nan => simp [Width.ofNumber, Width.fits] at h
  | infinite negative =>
    cases negative with
    | false => exact .inr ⟨_, rfl, by simp [Number.extended]⟩
    | true => exact .inl (by simpa [Width.ofNumber, Width.fits] using h)
  | finite negative m e hcanonical =>
    obtain ⟨i, hi⟩ : ∃ i, (Number.finite negative m e hcanonical).floor? = some i := ⟨_, rfl⟩
    have hle : (n : ℤ) ≤ i := by simpa [Width.ofNumber, hi, Width.fits] using h
    exact .inr ((Number.le_floor_iff hi n).1 hle)

/-- What there is room for fits beside what is taken, or into the least room. -/
theorem fits_room {w : Width} {taken n : ℕ} (h : (room taken w).fits n = true) :
    n ≤ leastWidth ∨ w.fits (taken + n) = true := by
  cases w with
  | columns c =>
    simp only [room, Width.minus, Width.atLeast, Width.fits, decide_eq_true_eq, le_max_iff] at h ⊢
    omega
  | unbounded => exact .inr rfl
  | nothing => exact .inr h

theorem minus_minus (w : Width) (m n : ℕ) : (w.minus m).minus n = w.minus (m + n) := by
  cases w with
  | columns c =>
    simp only [Width.minus, Width.columns.injEq]
    omega
  | unbounded => rfl
  | nothing => rfl

end CodeTemplate.Comment
