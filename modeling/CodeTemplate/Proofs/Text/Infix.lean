import Mathlib.Data.List.DropRight
import CodeTemplate.Text.Affix
import CodeTemplate.Text.Lines

/-! Parts of texts: lines, words and trimmed texts are stretches of the text that they come from,
and words have no space in them. Indents have nothing else. -/

namespace CodeTemplate.Text

theorem dropEndWhile_isPrefix (p : Char → Bool) (cs : List Char) : dropEndWhile p cs <+: cs :=
  List.rdropWhile_prefix p _

theorem trimChars_isInfix (cs : List Char) : trimChars cs <:+: cs :=
  (dropEndWhile_isPrefix isSpace _).isInfix.trans (List.dropWhile_suffix isSpace).isInfix

theorem toList_trimEnd_isPrefix (s : String) : (trimEnd s).toList <+: s.toList := by
  rw [trimEnd, String.toList_ofList]
  exact dropEndWhile_isPrefix isSpace s.toList

theorem after?_suffix {lead cs rest : List Char} (h : after? lead cs = some rest) : rest <:+ cs :=
  ⟨lead, (after?_eq_some h).symm⟩

theorem after?_append (lead rest : List Char) : after? lead (lead ++ rest) = some rest := by
  induction lead with
  | nil => rfl
  | cons c lead ih => simpa [after?] using ih

section Lead

variable {p : Char → Bool} {before cs : List Char}

theorem dropWhile_lead (hb : ∀ c ∈ before, p c = true) (hc : ∀ c ∈ cs.head?, p c = false) :
    (before ++ cs).dropWhile p = cs := by
  rw [List.dropWhile_append_of_pos hb]
  cases cs with
  | nil => rfl
  | cons c cs => simp [hc c rfl]

theorem takeWhile_lead (hb : ∀ c ∈ before, p c = true) (hc : ∀ c ∈ cs.head?, p c = false) :
    (before ++ cs).takeWhile p = before := by
  rw [List.takeWhile_append_of_pos hb]
  cases cs with
  | nil => simp
  | cons c cs => simp [hc c rfl]

/-- What ends with something else than `p` loses nothing of it. -/
theorem dropEndWhile_append (hne : before ≠ []) (hc : ∀ c ∈ before.getLast?, p c = false)
    (cs : List Char) : dropEndWhile p (before ++ cs) = before ++ dropEndWhile p cs := by
  obtain ⟨init, last, rfl⟩ := (List.eq_nil_or_concat before).resolve_left hne
  have hlast : p last = false := hc last (by simp)
  rw [dropEndWhile, List.reverse_append, List.dropWhile_append, dropEndWhile]
  split
  · next h => simp [List.isEmpty_iff.1 h, hlast]
  · simp

end Lead

section Split

variable {α : Type} {p : α → Bool} {xs part : List α}

/-- The first part starts the list, which the induction needs for the element before it. -/
theorem splitOnP_isInfix (p : α → Bool) (xs : List α) :
    (∀ part ∈ xs.splitOnP p, part <:+: xs) ∧ ∀ part ∈ (xs.splitOnP p).head?, part <+: xs := by
  induction xs with
  | nil => simp [List.splitOnP_nil]
  | cons x xs ih =>
    obtain ⟨hall, hhead⟩ := ih
    have hcons : ∀ {part}, part <:+: xs → part <:+: x :: xs := fun h =>
      h.trans (List.suffix_cons x xs).isInfix
    rw [List.splitOnP_cons_eq_if_modifyHead]
    split
    · refine ⟨fun part hp => ?_, by simp⟩
      rcases List.mem_cons.1 hp with rfl | hp
      · exact List.nil_infix
      · exact hcons (hall part hp)
    · obtain ⟨first, more, heq⟩ := List.exists_cons_of_ne_nil (List.splitOnP_ne_nil p xs)
      rw [heq] at hall hhead ⊢
      have hfirst : x :: first <+: x :: xs := (List.prefix_cons_inj x).2 (hhead first rfl)
      refine ⟨fun part hp => ?_, by simpa using hfirst⟩
      rcases List.mem_cons.1 hp with rfl | hp
      · exact hfirst.isInfix
      · exact hcons (hall part (List.mem_cons_of_mem _ hp))

theorem infix_of_mem_splitOnP (h : part ∈ xs.splitOnP p) : part <:+: xs :=
  (splitOnP_isInfix p xs).1 part h

theorem not_of_mem_splitOnP (h : part ∈ xs.splitOnP p) : ∀ x ∈ part, p x = false := by
  induction xs generalizing part with
  | nil => simp_all [List.splitOnP_nil]
  | cons x xs ih =>
    rw [List.splitOnP_cons_eq_if_modifyHead] at h
    split at h
    · rcases List.mem_cons.1 h with rfl | h
      · simp
      · exact ih h
    · next hx =>
      obtain ⟨first, more, heq⟩ := List.exists_cons_of_ne_nil (List.splitOnP_ne_nil p xs)
      rw [heq, List.modifyHead_cons] at h
      rcases List.mem_cons.1 h with rfl | h
      · intro y hy
        rcases List.mem_cons.1 hy with rfl | hy
        · simpa using hx
        · exact ih (by simp [heq]) y hy
      · exact ih (by simp [heq, h])

theorem mem_intercalate {a : α} {sep : List α} {ls : List (List α)} (h : a ∈ sep.intercalate ls) :
    a ∈ sep ∨ ∃ l ∈ ls, a ∈ l := by
  induction ls with
  | nil => simp at h
  | cons l ls ih =>
    cases ls with
    | nil => exact .inr ⟨l, by simp, by simpa using h⟩
    | cons m ls =>
      rw [List.intercalate_cons_cons, List.mem_append, List.mem_append] at h
      rcases h with (h | h) | h
      · exact .inr ⟨l, by simp, h⟩
      · exact .inl h
      · obtain hsep | ⟨k, hk, ha⟩ := ih h
        · exact .inl hsep
        · exact .inr ⟨k, List.mem_cons_of_mem _ hk, ha⟩

theorem intercalate_concat (sep last : List α) (init : List (List α)) :
    sep.intercalate (init ++ [last]) = init.flatMap (· ++ sep) ++ last := by
  induction init with
  | nil => simp
  | cons first init ih =>
    obtain ⟨second, more, heq⟩ := List.exists_cons_of_ne_nil
      (List.append_ne_nil_of_right_ne_nil init (List.cons_ne_nil last []))
    rw [List.cons_append, heq, List.intercalate_cons_cons, ← heq, ih]
    simp

end Split

theorem infix_of_mem_lines {s line : String} (h : line ∈ lines s) : line.toList <:+: s.toList := by
  obtain ⟨part, hp, rfl⟩ := List.mem_map.1 h
  rw [String.toList_ofList]
  exact infix_of_mem_splitOnP hp

theorem lines_ne_nil (s : String) : lines s ≠ [] := by
  simp [lines, split, List.splitOn_ne_nil]

theorem not_mem_of_mem_split {sep : Char} {s part : String} (h : part ∈ split sep s) :
    sep ∉ part.toList := by
  obtain ⟨cs, hcs, rfl⟩ := List.mem_map.1 h
  rw [List.splitOn_eq_splitOnP] at hcs
  intro hm
  rw [String.toList_ofList] at hm
  simpa using not_of_mem_splitOnP hcs _ hm

theorem not_mem_of_mem_lines {s line : String} (h : line ∈ lines s) : '\n' ∉ line.toList :=
  not_mem_of_mem_split h

theorem mem_words {s word : String} (h : word ∈ words s) :
    word ≠ "" ∧ word.toList <:+: s.toList ∧ ∀ c ∈ word.toList, isSpace c = false := by
  obtain ⟨part, hp, rfl⟩ := List.mem_map.1 h
  obtain ⟨hp, hne⟩ := List.mem_filter.1 hp
  have hlist : part ≠ [] := by simpa using hne
  rw [String.toList_ofList]
  exact ⟨by simpa using hlist, infix_of_mem_splitOnP hp, not_of_mem_splitOnP hp⟩

theorem toList_unlines (ls : List String) :
    (unlines ls).toList = ['\n'].intercalate (ls.map String.toList) := by
  simp [unlines]

/-- A text of several lines is its first line and each further one behind a line break. -/
theorem toList_unlines_cons (first : String) (rest : List String) :
    (unlines (first :: rest)).toList = first.toList ++ rest.flatMap fun l => '\n' :: l.toList := by
  induction rest generalizing first with
  | nil => simp [unlines]
  | cons second rest ih =>
    have h : unlines (first :: second :: rest) = first ++ "\n" ++ unlines (second :: rest) := by
      rw [unlines, String.intercalate_cons_cons, unlines]
    rw [h, String.toList_append, String.toList_append, ih, List.flatMap_cons]
    simp

/-- Texts joined by a character that none of them has are read back. -/
theorem split_intercalate {sep : Char} {mark : String} (hmark : mark.toList = [sep])
    {parts : List String} (hne : parts ≠ []) (h : ∀ part ∈ parts, sep ∉ part.toList) :
    split sep (mark.intercalate parts) = parts := by
  have hsep : ∀ cs ∈ parts.map String.toList, sep ∉ cs := by
    intro cs hm
    obtain ⟨part, hpart, rfl⟩ := List.mem_map.1 hm
    exact h part hpart
  have hlist : parts.map String.toList ≠ [] := by simpa using hne
  rw [split, String.toList_intercalate, hmark, List.splitOn_intercalate sep hsep hlist,
    List.map_map]
  simp [Function.comp_def]

/-- The lines of lines put together are those lines. -/
theorem lines_unlines {ls : List String} (hne : ls ≠ []) (h : ∀ l ∈ ls, '\n' ∉ l.toList) :
    lines (unlines ls) = ls :=
  split_intercalate rfl hne h

/-- The text is what may indent a line. -/
def Indents (s : String) : Prop := ∀ c ∈ s.toList, isIndent c = true

theorem Indents.ne {s : String} (h : Indents s) {c : Char} (hc : isIndent c = false) :
    ∀ d ∈ s.toList, d ≠ c := by
  rintro d hd rfl
  simp [h d hd] at hc

end CodeTemplate.Text
