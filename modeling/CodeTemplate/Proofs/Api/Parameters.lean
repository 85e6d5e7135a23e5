import Mathlib.Data.List.Basic
import Mathlib.Data.List.Pairwise
import CodeTemplate.Api.Entity

/-! The parameters of a method in their groups. No parameter is lost or doubled, and those of one
rank stand as declared. -/

namespace CodeTemplate
namespace Method

/-- The name stands in the order, for the first time behind `i` others. -/
def FirstAt (order : List String) (name : String) (i : ℕ) : Prop :=
  ∃ before after, order = before ++ name :: after ∧ name ∉ before ∧ before.length = i

/-- The order tells the parameters apart in no way: it has one name for both, or none for either. -/
def Alike (order : List String) (p q : Parameter) : Prop :=
  p.wireName = q.wireName ∨ p.wireName ∉ order ∧ q.wireName ∉ order

instance (order : List String) (p q : Parameter) : Decidable (Alike order p q) :=
  inferInstanceAs (Decidable (_ ∨ _))

/-- Each parameter is in one of two groups by its need and in one of two by its place, where it
stands as declared. Among the required ones, those that the order names come first and in its
order. -/
structure Classified (m : Method) : Prop where
  need : (m.requiredParameters ++ m.optionalParameters).Perm m.parameters
  required : ∀ p ∈ m.requiredParameters, p.required = true
  optional : ∀ p ∈ m.optionalParameters, p.required = false
  place : (m.pathParameters ++ m.queryParameters).Perm m.parameters
  path : ∀ p ∈ m.pathParameters, p.place = .path
  query : ∀ p ∈ m.queryParameters, p.place = .query
  optional_declared : m.optionalParameters.Sublist m.parameters
  path_declared : m.pathParameters.Sublist m.parameters
  query_declared : m.queryParameters.Sublist m.parameters
  required_perm : m.requiredParameters.Perm (m.parameters.filter (·.required))
  ordered : m.requiredParameters.Pairwise fun p q =>
    ∀ j, FirstAt m.order q.wireName j → ∃ i ≤ j, FirstAt m.order p.wireName i
  alike : ∀ p, m.requiredParameters.filter (Alike m.order p) =
    (m.parameters.filter (·.required)).filter (Alike m.order p)

/-! ### Ranks -/

variable {order : List String} {name : String} {p q : Parameter} {i : ℕ}

theorem firstAt_idxOf (h : name ∈ order) : FirstAt order name (order.idxOf name) := by
  obtain ⟨before, after, rfl, hn⟩ := List.eq_append_cons_of_mem h
  refine ⟨before, after, rfl, hn, ?_⟩
  rw [List.idxOf_append_of_notMem hn, List.idxOf_cons_self, Nat.add_zero]

theorem FirstAt.idxOf_eq (h : FirstAt order name i) : order.idxOf name = i := by
  obtain ⟨before, after, rfl, hn, rfl⟩ := h
  rw [List.idxOf_append_of_notMem hn, List.idxOf_cons_self, Nat.add_zero]

theorem FirstAt.mem (h : FirstAt order name i) : name ∈ order := by
  obtain ⟨before, after, rfl, -⟩ := h
  simp

/-- What has at most the rank of a name in the order is in the order as well. -/
theorem firstAt_of_rank_le (h : rank order p ≤ rank order q) (hq : FirstAt order q.wireName i) :
    ∃ j ≤ i, FirstAt order p.wireName j := by
  have hlt : rank order q < order.length := List.idxOf_lt_length_iff.2 hq.mem
  have hp : p.wireName ∈ order := List.idxOf_lt_length_iff.1 (Nat.lt_of_le_of_lt h hlt)
  exact ⟨order.idxOf p.wireName, le_of_le_of_eq h hq.idxOf_eq, firstAt_idxOf hp⟩

theorem Alike.rank_eq (h : Alike order p q) : rank order p = rank order q := by
  rcases h with h | ⟨hp, hq⟩
  · rw [rank, rank, h]
  · rw [rank, rank, List.idxOf_of_notMem hp, List.idxOf_of_notMem hq]

/-! ### Stable sorting -/

/-- Sorting leaves those elements as they stand that are in order among themselves. -/
theorem filter_mergeSort {α : Type} {le : α → α → Bool} {f : α → Bool} {l : List α}
    (trans : ∀ a b c, le a b → le b c → le a c) (total : ∀ a b, le a b || le b a)
    (h : (l.filter f).Pairwise fun a b => le a b) : (l.mergeSort le).filter f = l.filter f := by
  have hsub : (l.filter f).Sublist ((l.mergeSort le).filter f) := by
    simpa using (List.sublist_mergeSort trans total h List.filter_sublist).filter f
  -- They are in the sorted list in this order, and there are no others.
  have hperm : ((l.mergeSort le).filter f).Perm (l.filter f) := (List.mergeSort_perm l le).filter f
  exact (hsub.eq_of_length hperm.length_eq.symm).symm

theorem rank_trans (order : List String) (p q r : Parameter)
    (h : decide (rank order p ≤ rank order q) = true)
    (h' : decide (rank order q ≤ rank order r) = true) :
    decide (rank order p ≤ rank order r) = true := by
  simp only [decide_eq_true_eq] at h h' ⊢
  exact Nat.le_trans h h'

theorem rank_total (order : List String) (p q : Parameter) :
    (decide (rank order p ≤ rank order q) || decide (rank order q ≤ rank order p)) = true := by
  simp only [Bool.or_eq_true, decide_eq_true_eq]
  exact Nat.le_total _ _

theorem required_ordered (m : Method) :
    m.requiredParameters.Pairwise fun p q => rank m.order p ≤ rank m.order q := by
  have h := List.pairwise_mergeSort (rank_trans m.order) (rank_total m.order)
    (m.parameters.filter (·.required))
  simpa [requiredParameters] using h

theorem required_alike (m : Method) (p : Parameter) :
    m.requiredParameters.filter (Alike m.order p) =
      (m.parameters.filter (·.required)).filter (Alike m.order p) := by
  refine filter_mergeSort (rank_trans m.order) (rank_total m.order) ?_
  refine List.pairwise_of_forall_mem_list ?_
  intro q hq r hr
  have hpq : Alike m.order p q := by simpa using (List.mem_filter.1 hq).2
  have hpr : Alike m.order p r := by simpa using (List.mem_filter.1 hr).2
  simp [← hpq.rank_eq, ← hpr.rank_eq]

theorem classified (m : Method) : m.Classified where
  need := by
    have hsort := List.mergeSort_perm (m.parameters.filter (·.required))
      fun p q => rank m.order p ≤ rank m.order q
    exact (hsort.append_right _).trans (List.filter_append_perm _ _)
  required p hp := by
    have hmem := List.mem_mergeSort.1 hp
    simpa using (List.mem_filter.1 hmem).2
  optional p hp := by simpa using (List.mem_filter.1 hp).2
  place := by
    have hquery : m.queryParameters = m.parameters.filter fun p => !decide (p.place = .path) := by
      refine List.filter_congr fun p _ => ?_
      cases p.place <;> rfl
    rw [hquery]
    exact List.filter_append_perm _ _
  path p hp := by simpa using (List.mem_filter.1 hp).2
  query p hp := by simpa using (List.mem_filter.1 hp).2
  optional_declared := List.filter_sublist
  path_declared := List.filter_sublist
  query_declared := List.filter_sublist
  required_perm := List.mergeSort_perm _ _
  ordered := m.required_ordered.imp fun h _ hq => firstAt_of_rank_le h hq
  alike := m.required_alike

/-- A method with a name can be made, and has its parameters in their groups. -/
theorem checked_classified (m : Method) (h : m.codeName ≠ "") :
    m.checked = .ok m ∧ m.Classified := by
  refine ⟨?_, m.classified⟩
  have hname : nonEmpty "Method" "codeName" m.codeName = .ok () := by
    simp [nonEmpty, nonEmptyEntry, PlainEntry.isEmpty, h]
  rw [checked, hname]
  rfl

/-- The order has one name twice, the name of no parameter, and that of an optional one; two
parameters share their name. -/
theorem checked_classified_shared :
    let parameter (wireName codeName : String) (required : Bool) (place : ParameterPlace) :=
      Parameter.mk wireName codeName (.own "String") none required place
    let m : Method := ⟨"list", "books/{id}", "GET", none, none, none,
      [parameter "page" "first" true .query, parameter "id" "id" true .path,
        parameter "page" "second" true .query, parameter "sort" "sort" false .query,
        parameter "key" "key" true .path],
      ["id", "sort", "none", "key", "id"]⟩
    m.codeName ≠ "" ∧ m.checked = .ok m ∧ m.Classified ∧
      m.requiredParameters.map (·.codeName) = ["id", "key", "first", "second"] := by
  intro parameter m
  have hname : m.codeName ≠ "" := by decide
  obtain ⟨hchecked, hclassified⟩ := checked_classified m hname
  refine ⟨hname, hchecked, hclassified, ?_⟩
  simp [requiredParameters, m, parameter, rank, List.mergeSort, List.idxOf_cons]

end Method
end CodeTemplate
