import CodeTemplate.Markup.Name
import CodeTemplate.Proofs.Text.Infix

/-! Names of templates and their keys. A name is usable if the segments of its path are, and the key
of a usable name is usable and is its own key. -/

namespace CodeTemplate.TemplateName

/-- A segment of a usable name. -/
def IsSegment : List Char → Prop
  | [] => False
  | c :: cs => isNameRest c = true ∧ ∀ d ∈ cs, isSegmentRest d = true

/-- The path of a usable name, which starts with no slash. -/
structure IsRelative (cs : List Char) : Prop where
  inside : hasParent cs = false
  segments : ∀ part ∈ cs.splitOn '/', IsSegment part

variable {cs : List Char} {name : String}

theorem IsSegment.forall_mem (h : IsSegment cs) : ∀ c ∈ cs, isSegmentRest c = true := by
  cases cs with
  | nil => simp
  | cons c cs =>
    have hc : isSegmentRest c = true := by simp [isSegmentRest, h.1]
    exact List.forall_mem_cons.2 ⟨hc, h.2⟩

theorem IsRelative.forall_mem (h : IsRelative cs) :
    ∀ c ∈ cs, c = '/' ∨ isSegmentRest c = true := by
  intro c hc
  have hjoin : ['/'].intercalate (cs.splitOn '/') = cs := List.intercalate_splitOn '/'
  rw [← hjoin] at hc
  rcases Text.mem_intercalate hc with hc | ⟨part, hp, hc⟩
  · exact .inl (List.mem_singleton.1 hc)
  · exact .inr ((h.segments part hp).forall_mem c hc)

theorem IsRelative.not_mem (h : IsRelative cs) {c : Char} (hc : c ≠ '/')
    (hrest : isSegmentRest c = false) : c ∉ cs := by
  intro hm
  rcases h.forall_mem c hm with he | he
  · exact hc he
  · simp [hrest] at he

/-- A path starts with its first segment. -/
theorem IsRelative.exists_first (h : IsRelative cs) :
    ∃ c ds, cs = c :: ds ∧ isNameRest c = true := by
  cases cs with
  | nil => exact (h.segments [] (by simp [List.splitOn_nil])).elim
  | cons c ds =>
    refine ⟨c, ds, rfl, ?_⟩
    have hsegments := h.segments
    rw [List.splitOn_cons_eq_if_modifyHead] at hsegments
    split at hsegments
    · exact (hsegments [] List.mem_cons_self).elim
    · obtain ⟨first, more, heq⟩ := List.exists_cons_of_ne_nil (List.splitOn_ne_nil '/' ds)
      rw [heq, List.modifyHead_cons] at hsegments
      exact (hsegments _ List.mem_cons_self).1

theorem relative_eq_self (h : name.toList.head? ≠ some '/') : relative name = name := by
  unfold relative
  split
  · next rest hrest => exact absurd (by rw [hrest, List.head?_cons]) h
  · rfl

theorem relative_of_isRelative (h : IsRelative name.toList) : relative name = name := by
  obtain ⟨c, ds, hcs, hc⟩ := h.exists_first
  refine relative_eq_self ?_
  rw [hcs]
  rintro ⟨rfl⟩
  exact absurd hc (by decide)

theorem toList_eq_relative (name : String) :
    name.toList = (relative name).toList ∨ name.toList = '/' :: (relative name).toList := by
  unfold relative
  split
  · next rest hrest => exact .inr (by simp [hrest])
  · exact .inl rfl

theorem hasParent_slash (cs : List Char) : hasParent ('/' :: cs) = hasParent cs := by
  simp [hasParent]

theorem segmentFault?_eq_none {segment : String} :
    segmentFault? name segment = none ↔ IsSegment segment.toList := by
  simp only [segmentFault?]
  cases segment.toList with
  | nil => simp [IsSegment]
  | cons c cs => simp [IsSegment]

theorem segmentFaults_eq_none :
    (segments name).findSome? (segmentFault? name) = none ↔
      ∀ part ∈ (relative name).toList.splitOn '/', IsSegment part := by
  simp [segments, Text.split, segmentFault?_eq_none]

/-- A name is usable if and only if its path is. -/
theorem fault?_eq_none_iff : fault? name = none ↔ IsRelative (relative name).toList := by
  have hparent : hasParent name.toList = hasParent (relative name).toList := by
    rcases toList_eq_relative name with h | h
    · rw [h]
    · rw [h, hasParent_slash]
  simp only [fault?]
  constructor
  · intro h
    split_ifs at h with he hp hb hc
    exact ⟨by simpa [hparent] using hp, segmentFaults_eq_none.1 h⟩
  · intro h
    have hne : name ≠ "" := by
      rintro rfl
      obtain ⟨c, ds, hcs, -⟩ := h.exists_first
      simp [relative] at hcs
    have hmem : ∀ c, c ≠ '/' → isSegmentRest c = false → name.toList.contains c = false := by
      intro c hc hrest
      have hnot := h.not_mem hc hrest
      rcases toList_eq_relative name with heq | heq
      · simpa [heq] using hnot
      · simpa [heq, hc] using hnot
    rw [if_neg hne, hparent, h.inside, hmem '\\' (by decide) (by decide),
      hmem ':' (by decide) (by decide)]
    simpa using segmentFaults_eq_none.2 h.segments

/-! ### Keys -/

theorem hasParent_cons (c : Char) (cs : List Char) :
    hasParent (c :: cs) = true ↔ (c = '.' ∧ cs.head? = some '.') ∨ hasParent cs = true := by
  by_cases h : ∃ ds, c = '.' ∧ cs = '.' :: ds
  · obtain ⟨ds, rfl, rfl⟩ := h
    simp [hasParent]
  · have hhead : ¬ (c = '.' ∧ cs.head? = some '.') := by
      rintro ⟨hc, hd⟩
      obtain ⟨ds, hds⟩ := List.head?_eq_some_iff.1 hd
      exact h ⟨ds, hc, hds⟩
    rw [hasParent]
    · simp [hhead]
    · rintro ds hc hcs
      exact h ⟨ds, hc, hcs⟩

/-- No two dots meet where the first text does not end with one. -/
theorem not_hasParent_append {ds : List Char} (hc : ¬ hasParent cs = true)
    (hd : ¬ hasParent ds = true) (hlast : cs.getLast? ≠ some '.') :
    ¬ hasParent (cs ++ ds) = true := by
  induction cs with
  | nil => exact hd
  | cons c cs ih =>
    rw [hasParent_cons, not_or] at hc
    rw [List.cons_append, hasParent_cons, not_or]
    cases cs with
    | nil =>
      have hne : c ≠ '.' := by simpa using hlast
      exact ⟨fun h => hne h.1, hd⟩
    | cons d cs => exact ⟨hc.1, ih hc.2 (by rwa [List.getLast?_cons_cons] at hlast)⟩

/-- A usable path with an extension is its own key. -/
theorem normalize_eq_self {last : List Char} {init : List (List Char)}
    (h : IsRelative name.toList) (hparts : name.toList.splitOn '/' = init ++ [last])
    (hext : '.' ∈ last) : normalize name = .ok name := by
  have hrel := relative_of_isRelative h
  have hfault : fault? name = none := fault?_eq_none_iff.2 (hrel.symm ▸ h)
  have hkey : key name = name := by
    simp [key, segments, Text.split, hrel, hparts, hext]
  simp [normalize, hfault, hkey]

/-- A usable path without an extension may be given one. -/
theorem IsRelative.append {last ext : List Char} {init : List (List Char)} (h : IsRelative cs)
    (hparts : cs.splitOn '/' = init ++ [last]) (hdot : '.' ∉ last)
    (hext : ∀ c ∈ ext, isSegmentRest c = true) (hinside : ¬ hasParent ext = true) :
    IsRelative (cs ++ ext) ∧ (cs ++ ext).splitOn '/' = init ++ [last ++ ext] := by
  have hmem : ∀ part ∈ init ++ [last], IsSegment part := hparts ▸ h.segments
  have hslash : ∀ {c}, isSegmentRest c = true → c ≠ '/' := by
    rintro c hc rfl
    exact absurd hc (by decide)
  have hcs : cs = init.flatMap (· ++ ['/']) ++ last := by
    rw [← Text.intercalate_concat, ← hparts, List.intercalate_splitOn]
  obtain ⟨c, ds, rfl, hfirst, hrest⟩ : ∃ c ds, last = c :: ds ∧ isNameRest c = true ∧
      ∀ d ∈ ds, isSegmentRest d = true := by
    have hlast := hmem last (by simp)
    cases last with
    | nil => exact hlast.elim
    | cons c ds => exact ⟨c, ds, rfl, hlast⟩
  have hsegment : IsSegment (c :: ds ++ ext) :=
    ⟨hfirst, fun d hd => (List.mem_append.1 hd).elim (hrest d) (hext d)⟩
  have hall : ∀ part ∈ init ++ [c :: ds ++ ext], IsSegment part := by
    intro part hp
    rcases List.mem_append.1 hp with hp | hp
    · exact hmem part (List.mem_append_left _ hp)
    · exact List.mem_singleton.1 hp ▸ hsegment
  have hsplit : (cs ++ ext).splitOn '/' = init ++ [c :: ds ++ ext] := by
    rw [hcs, List.append_assoc, ← Text.intercalate_concat]
    exact List.splitOn_intercalate '/'
      (fun part hp hc => hslash ((hall part hp).forall_mem _ hc) rfl) (by simp)
  refine ⟨⟨?_, hsplit ▸ hall⟩, hsplit⟩
  refine Bool.eq_false_iff.2 (not_hasParent_append (by simp [h.inside]) hinside ?_)
  intro hl
  rw [hcs, List.getLast?_append_of_ne_nil _ (by simp)] at hl
  exact hdot (List.mem_of_getLast? hl)

/-- The path of a key is usable, and its last segment has a dot. -/
theorem isRelative_of_normalize {key : String} (h : normalize name = .ok key) :
    IsRelative key.toList ∧
      ∃ init last, key.toList.splitOn '/' = init ++ [last] ∧ '.' ∈ last := by
  simp only [normalize] at h
  split at h
  · simp at h
  · next hfault =>
    obtain rfl := Except.ok.inj h
    have hrel := fault?_eq_none_iff.1 hfault
    obtain ⟨init, last, hparts⟩ :=
      (List.eq_nil_or_concat' ((relative name).toList.splitOn '/')).resolve_left
        (List.splitOn_ne_nil '/' _)
    by_cases hdot : '.' ∈ last
    · have hkey : key name = relative name := by simp [key, segments, Text.split, hparts, hdot]
      rw [hkey]
      exact ⟨hrel, init, last, hparts, hdot⟩
    · have hkey : key name = relative name ++ extension := by
        simp [key, segments, Text.split, hparts, hdot]
      have hrest : ∀ c ∈ extension.toList, isSegmentRest c = true :=
        List.all_eq_true.1 (by decide)
      obtain ⟨hext, hsplit⟩ := hrel.append hparts hdot hrest (by decide)
      rw [hkey, String.toList_append]
      exact ⟨hext, init, _, hsplit, by simp [extension]⟩

/-- The key of a usable name is its own key. -/
theorem normalize_key {key : String} (h : normalize name = .ok key) :
    normalize key = .ok key := by
  obtain ⟨hrel, init, last, hparts, hdot⟩ := isRelative_of_normalize h
  exact normalize_eq_self hrel hparts hdot

theorem normalize_eq_error_iff {f : NameFault} :
    normalize name = .error f ↔ fault? name = some f := by
  simp only [normalize]
  cases fault? name <;> simp

theorem hasParent_iff_isInfix : hasParent cs = true ↔ ['.', '.'] <:+: cs := by
  induction cs with
  | nil => simp [hasParent]
  | cons c cs ih =>
    have hhead : ['.'] <+: cs ↔ cs.head? = some '.' := by cases cs <;> simp [eq_comm]
    rw [hasParent_cons, ih, List.infix_cons_iff, List.cons_prefix_cons, hhead, eq_comm]

/-- What a key is: a name that is its own key, and a path that leads nowhere else than down from
where it starts. -/
structure IsKey (key : String) : Prop where
  usable : fault? key = none
  own : normalize key = .ok key
  noSlash : key.toList.head? ≠ some '/'
  noParent : ¬ ['.', '.'] <:+: key.toList
  noBackslash : '\\' ∉ key.toList
  noColon : ':' ∉ key.toList
  first : ∀ segment ∈ key.toList.splitOn '/', ∃ c ∈ segment.head?, c.isAlphanum ∨ c = '_'
  rest : ∀ segment ∈ key.toList.splitOn '/', ∀ c ∈ segment,
    c.isAlphanum ∨ c = '_' ∨ c = '.' ∨ c = '-'
  extension : ∃ last ∈ (key.toList.splitOn '/').getLast?, '.' ∈ last

theorem IsSegment.exists_first (h : IsSegment cs) :
    ∃ c ∈ cs.head?, c.isAlphanum ∨ c = '_' := by
  cases cs with
  | nil => exact h.elim
  | cons c cs => exact ⟨c, rfl, by simpa [isNameRest] using h.1⟩

theorem isKey_of_normalize {key : String} (h : normalize name = .ok key) : IsKey key := by
  obtain ⟨hrel, init, last, hparts, hdot⟩ := isRelative_of_normalize h
  have hown : normalize key = .ok key := normalize_key h
  have husable : fault? key = none := by
    rw [fault?_eq_none_iff, relative_of_isRelative hrel]
    exact hrel
  obtain ⟨c, ds, hcs, hc⟩ := hrel.exists_first
  refine ⟨husable, hown, ?_, ?_, hrel.not_mem (by decide) (by decide),
    hrel.not_mem (by decide) (by decide), fun segment hs => (hrel.segments segment hs).exists_first,
    fun segment hs d hd => ?_, last, by simp [hparts], hdot⟩
  · rw [hcs]
    rintro ⟨rfl⟩
    exact absurd hc (by decide)
  · rw [← hasParent_iff_isInfix, hrel.inside]
    exact Bool.false_ne_true
  · have hrest := (hrel.segments segment hs).forall_mem d hd
    simpa [isSegmentRest, isNameRest, or_assoc] using hrest

end CodeTemplate.TemplateName
