import CodeTemplate.Proofs.Markup.Joining
import CodeTemplate.Proofs.Render.Action

/-! Nodes put together. They render as one part after the other, the second in the language that
the first one leaves; and only a language tag changes the language. -/

namespace CodeTemplate
namespace Render

open CodeTemplate.Action
open Node (nested allWithin)

variable {σ α : Type} {c : Setting σ} {s : Scope} {inList : Bool} {l : Language}

/-! ### One after the other -/

theorem Output.empty_append (a : Output) : Output.append ⟨"", l, []⟩ a = a := by
  simp [append]

theorem Output.append_assoc (a b d : Output) : (a.append b).append d = a.append (b.append d) := by
  simp [append, String.append_assoc]

theorem nodes_append (ns ms : List Node) :
    nodes c s inList l (ns ++ ms) = (do
      let a ← nodes c s inList l ns
      let b ← nodes c s inList a.language ms
      return a.append b) := by
  induction ns generalizing l with
  | nil => simp only [List.nil_append, nodes, pure_bind, Output.empty_append, bind_pure]
  | cons n ns ih =>
    simp only [List.cons_append, nodes, ih, bind_assoc, pure_bind, Output.append_assoc]
    rfl

/-- A text in two parts is the same text. -/
theorem nodes_text_append (v w : String) (ns : List Node) :
    nodes c s inList l (.text (v ++ w) :: ns) =
      nodes c s inList l (.text v :: .text w :: ns) := by
  simp [nodes, node, Output.append, String.append_assoc]

theorem nodes_joined {ns ms ls : List Node} (h : Node.Joined ns ms ls) :
    nodes c s inList l ls = (do
      let a ← nodes c s inList l ns
      let b ← nodes c s inList a.language ms
      return a.append b) := by
  cases h with
  | apart => exact nodes_append ns ms
  | @text ns ms v w =>
    calc nodes c s inList l (ns ++ .text (v ++ w) :: ms)
        = nodes c s inList l (ns ++ .text v :: .text w :: ms) := by
          simp only [nodes_append ns, nodes_text_append]
      _ = nodes c s inList l ((ns ++ [.text v]) ++ .text w :: ms) := by simp
      _ = _ := nodes_append _ _

/-! ### The language -/

/-- The language that a computation leaves, if it gives an output. -/
def Leaves (l : Language) (x : Action σ Output) : Prop :=
  ∀ s out t, exec x s = (.ok out, t) → out.language = l

theorem leaves_pure (text : String) (entries : List Entry) :
    Leaves l (pure ⟨text, l, entries⟩ : Action σ Output) := by
  intro s out t h
  obtain ⟨ho, -⟩ := Prod.mk.inj h
  rw [← Except.ok.inj ho]

theorem leaves_fail (cause : Cause) (p : Position) :
    Leaves l (fail cause p : Action σ Output) := by
  intro s out t h
  simp at h

/-- The last of two computations counts. -/
theorem leaves_bind {x : Action σ α} {f : α → Action σ Output} (hf : ∀ a, Leaves l (f a)) :
    Leaves l (x >>= f) := by
  intro s out t h
  rw [exec_bind] at h
  split at h
  · exact hf _ _ _ _ h
  · simp at h

theorem Leaves.bind {x : Action σ Output} {f : Output → Action σ Output} (hx : Leaves l x)
    (hf : ∀ a, a.language = l → Leaves l (f a)) : Leaves l (x >>= f) := by
  intro s out t h
  rw [exec_bind] at h
  split at h
  · next a u he => exact hf a (hx _ _ _ he) _ _ _ h
  · simp at h

theorem leaves_eachItem {body : Scope → Language → Action σ Output}
    (hb : ∀ s, Leaves l (body s l)) (item : String) (count i : Nat) (vs : List Value) :
    Leaves l (eachItem body s item count i vs l) := by
  induction vs generalizing i with
  | nil => exact leaves_pure "" []
  | cons v vs ih =>
    refine (hb _).bind fun a ha => ?_
    rw [ha]
    refine (ih _).bind fun b hb => ?_
    rw [Output.append, hb]
    exact leaves_pure _ _

mutual

theorem leaves_node (n : Node) (h : ∀ name start, .language name start ∉ n :: nested n) (s : Scope)
    (inList : Bool) : Leaves l (node c s inList l n) := by
  have hbody : ∀ name start, .language name start ∉ nested n :=
    fun name start hm => h name start (List.mem_cons_of_mem _ hm)
  cases n with
  | text | inherited => exact leaves_pure _ _
  | «variable» path filters start => exact leaves_bind fun v => leaves_bind fun t => leaves_pure _ _
  | conditional condition thenBranch elseBranch start =>
    cases elseBranch with
    | none =>
      refine leaves_bind fun v => ?_
      split
      · exact leaves_nodes thenBranch hbody s inList
      · exact leaves_pure _ _
    | some elseBranch =>
      simp only [nested, List.mem_append, not_or] at hbody
      refine leaves_bind fun v => ?_
      split
      · exact leaves_nodes thenBranch (fun name start => (hbody name start).1) s inList
      · exact leaves_nodes elseBranch (fun name start => (hbody name start).2) s inList
  | loop item collection body start =>
    refine leaves_bind fun v => leaves_bind fun items => ?_
    exact leaves_eachItem (fun s => leaves_nodes body hbody s inList) item _ _ items
  | filtered filters body start =>
    refine (leaves_nodes body hbody s inList).bind fun out ho => leaves_bind fun t => ?_
    rw [ho]
    exact leaves_pure _ _
  | imports subject body start => exact leaves_bind fun _ => leaves_nodes body hbody s inList
  | call template args start =>
    simp only [node]
    split
    · exact leaves_fail _ _
    · exact leaves_bind fun frame => leaves_bind fun t => leaves_pure _ _
  | docComment subject indent start =>
    exact leaves_bind fun v => leaves_bind fun t => leaves_pure _ _
  | literal path start => exact leaves_bind fun v => leaves_bind fun t => leaves_pure _ _
  | parameterList body start =>
    refine (leaves_nodes body hbody s true).bind fun out ho => ?_
    rw [ho]
    exact leaves_pure _ _
  | parameter grouped body start =>
    simp only [node]
    split
    · refine (leaves_nodes body hbody s inList).bind fun out ho => ?_
      rw [ho]
      exact leaves_pure _ _
    · exact leaves_fail _ _
  | language name start => exact absurd List.mem_cons_self (h name start)
  | copyright indent start => exact leaves_pure _ _

/-- The induction is on the nodes; a language tag is the only one that can change the language. -/
theorem leaves_nodes (ns : List Node) (h : ∀ name start, .language name start ∉ allWithin ns)
    (s : Scope) (inList : Bool) : Leaves l (nodes c s inList l ns) := by
  cases ns with
  | nil => exact leaves_pure _ _
  | cons n ns =>
    rw [allWithin] at h
    have hn : ∀ name start, .language name start ∉ n :: nested n := by
      intro name start hm
      exact h name start (List.cons_append ▸ List.mem_append_left _ hm)
    have hns : ∀ name start, .language name start ∉ allWithin ns := by
      intro name start hm
      exact h name start (List.mem_cons_of_mem _ (List.mem_append_right _ hm))
    refine (leaves_node n hn s inList).bind fun a ha => ?_
    rw [ha]
    refine (leaves_nodes ns hns s inList).bind fun b hb => ?_
    rw [Output.append, hb]
    exact leaves_pure _ _

end

end Render
end CodeTemplate
