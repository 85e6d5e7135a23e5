import CodeTemplate.Generator.Source

/-! Tables of values by key. Setting a key changes what is found under it alone, and keeps the keys
different. -/

namespace CodeTemplate

variable {α : Type} {l : List (String × α)} {key : String} {a : α}

theorem mem_of_lookup (h : l.lookup key = some a) : (key, a) ∈ l := by
  obtain ⟨before, after, rfl, _⟩ := List.lookup_eq_some_iff.1 h
  simp

/-- A key that the table does not have goes to its end. -/
theorem setKey_of_lookup_none (h : l.lookup key = none) : setKey key a l = l ++ [(key, a)] := by
  induction l with
  | nil => rfl
  | cons x l ih =>
    obtain ⟨k, b⟩ := x
    rw [List.lookup_cons] at h
    split at h
    · simp at h
    · next hk =>
      have hne : k ≠ key := by
        rintro rfl
        simp at hk
      simp [setKey, hne, ih h]

theorem mem_keys_setKey {k : String} :
    k ∈ (setKey key a l).map (·.1) ↔ k = key ∨ k ∈ l.map (·.1) := by
  induction l with
  | nil => simp [setKey]
  | cons x l ih =>
    obtain ⟨m, b⟩ := x
    by_cases hm : m = key
    · simp [setKey, hm]
    · simp only [setKey, hm, ↓reduceIte, List.map_cons, List.mem_cons, ih]
      exact or_left_comm

theorem nodup_setKey (h : (l.map (·.1)).Nodup) (key : String) (a : α) :
    ((setKey key a l).map (·.1)).Nodup := by
  induction l with
  | nil => simp [setKey]
  | cons x l ih =>
    obtain ⟨k, b⟩ := x
    obtain ⟨hnot, hrest⟩ := List.nodup_cons.1 h
    by_cases hk : k = key
    · simpa [setKey, hk] using h
    · rw [setKey, if_neg hk, List.map_cons]
      refine List.nodup_cons.2 ⟨?_, ih hrest⟩
      rw [mem_keys_setKey, not_or]
      exact ⟨hk, hnot⟩

theorem mem_setKey {x : String × α} (h : x ∈ setKey key a l) : x = (key, a) ∨ x ∈ l := by
  induction l with
  | nil => exact .inl (List.mem_singleton.1 h)
  | cons y l ih =>
    obtain ⟨k, b⟩ := y
    by_cases hk : k = key
    · rw [setKey, if_pos hk, hk] at h
      exact (List.mem_cons.1 h).imp_right (List.mem_cons_of_mem _)
    · rw [setKey, if_neg hk] at h
      rcases List.mem_cons.1 h with rfl | h
      · exact .inr List.mem_cons_self
      · exact (ih h).imp_right (List.mem_cons_of_mem _)

theorem mem_keys_of_lookup (h : l.lookup key = some a) : key ∈ l.map (·.1) :=
  List.mem_map_of_mem (mem_of_lookup h)

/-- Where no two keys are the same, each is found with the value that it stands with. -/
theorem lookup_eq_some_iff_mem (h : (l.map (·.1)).Nodup) :
    l.lookup key = some a ↔ (key, a) ∈ l := by
  induction l with
  | nil => simp
  | cons x l ih =>
    obtain ⟨k, b⟩ := x
    obtain ⟨hnot, hrest⟩ := List.nodup_cons.1 h
    rw [List.lookup_cons, List.mem_cons, Prod.mk.injEq]
    by_cases hk : key = k
    · obtain rfl := hk
      have hmem : (key, a) ∉ l := fun hm => hnot (List.mem_map.2 ⟨_, hm, rfl⟩)
      simp [hmem, eq_comm]
    · simp [beq_eq_false_iff_ne.2 hk, hk, ih hrest]

end CodeTemplate
