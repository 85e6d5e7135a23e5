import CodeTemplate.Markup.Tree.OfTokens

/-! Recursive descent goes the way of a machine that keeps the open blocks, and the nodes outside of
them, on a stack. A step of the machine reads a text, a variable, a tag, or a tag that closes or
splits the innermost block. What holds of a run of it, by induction on its steps, then holds of what
is read. -/

namespace CodeTemplate
namespace Parser

/-- An open block, with what was read before it in the block around it, the last first. -/
structure OpenBlock where
  header : Header
  start : Location
  outside : List Node

def OpenBlock.block (b : OpenBlock) : Block := ⟨b.header.tag, b.start⟩

/-- The open blocks as the recursion keeps them. -/
def blocksOf (stack : List OpenBlock) : List Block := stack.map OpenBlock.block

/-- The open blocks, and the nodes read so far of the innermost one, the last first. -/
structure State where
  stack : List OpenBlock := []
  nodes : List Node := []

def State.add (s : State) (n : Node) : State := { s with nodes := n :: s.nodes }

def State.open (s : State) (header : Header) (start : Location) : State :=
  { stack := ⟨header, start, s.nodes⟩ :: s.stack }

/-- The state after a tag that closes no block. -/
def State.after (s : State) (start : Location) : Tag → State
  | .node n => s.add n
  | .block h => s.open h start

/-- The state after a tag that closes or splits the innermost block, or none if the tag does not
belong to it. -/
def State.endTag? (s : State) (name : String) : Option State :=
  match s.stack with
  | [] => none
  | b :: bs =>
    if name = b.header.endTag then
      some { stack := bs, nodes := b.header.node b.start s.nodes.reverse :: b.outside }
    else
      match b.header with
      | .conditional condition =>
        if name = "else" then
          some { stack := { b with header := .alternative condition s.nodes.reverse } :: bs }
        else none
      | _ => none

/-- The innermost open block, as faults name it. -/
def State.innermost? (s : State) : Option (String × Location) :=
  s.stack.head?.map fun b => (b.header.tag, b.start)

/-- The nodes of the template, once its end is reached. -/
def State.finish (s : State) : Outcome (List Node) :=
  match s.stack with
  | [] => .ok s.nodes.reverse
  | b :: _ => .error ⟨.unclosed b.header.tag, b.start⟩

/-- The state after a block tag, of which `start` is the opening delimiter. -/
def State.tag (s : State) (start : Token) : List Token → Outcome (State × List Token)
  | [] => fail start .missingTagName
  | t :: ts =>
    if t.kind = .ident then do
      let name ← valueOf t
      match s.endTag? name with
      | some s => (close name ts).map fun ((), ts) => (s, ts)
      | none =>
        if endTags.contains name then fail t (.strayEnd name s.innermost?)
        else
          match TagName.ofText? name with
          | none => fail start (.unknownTag name)
          | some name =>
            (Parser.tag (blocksOf s.stack) start name ts).map fun (g, ts) =>
              (s.after start.location g, ts)
    else fail t .missingTagName

/-- The state after the text, variable or tag that starts with `t`. -/
def State.step (s : State) (t : Token) (ts : List Token) : Outcome (State × List Token) :=
  match t.kind with
  | .text => (valueOf t).map fun v => (s.add (.text v), ts)
  | .varOpen => (variableNode t.location ts).map fun (n, ts) => (s.add n, ts)
  | .blockOpen => s.tag t ts
  | k => fail t (.strayToken k)

theorem State.tag_suffix {s s' : State} {start : Token} (h : s.tag start ts = .ok (s', rest)) :
    rest <:+ ts := by
  cases ts with
  | nil => simp [State.tag, fail] at h
  | cons t ts =>
    refine List.IsSuffix.trans ?_ (List.suffix_cons t ts)
    simp only [State.tag] at h
    split at h
    · simp only [bind_ok] at h
      obtain ⟨name, _, h⟩ := h
      split at h
      · simp only [map_ok, Prod.exists, Prod.mk.injEq] at h
        obtain ⟨u, r, hc, _, rfl⟩ := h
        exact close_suffix hc
      · split at h
        · simp [fail] at h
        · split at h
          · simp [fail] at h
          · simp only [map_ok, Prod.exists, Prod.mk.injEq] at h
            obtain ⟨g, r, hg, _, rfl⟩ := h
            exact Parser.tag_suffix hg
    · simp [fail] at h

theorem State.step_suffix {s s' : State} {t : Token} (h : s.step t ts = .ok (s', rest)) :
    rest <:+ ts := by
  unfold State.step at h
  split at h
  · simp only [map_ok, Prod.mk.injEq] at h
    obtain ⟨v, _, _, rfl⟩ := h
    exact List.suffix_rfl
  · simp only [map_ok, Prod.exists, Prod.mk.injEq] at h
    obtain ⟨n, r, hv, _, rfl⟩ := h
    exact variableNode_suffix hv
  · exact State.tag_suffix h
  · simp [fail] at h

/-- The nodes that the tokens up to the first end make up, in the given state. -/
def State.run (s : State) : List Token → Outcome (List Node)
  | [] => s.finish
  | t :: ts =>
    if t.kind = .eof then s.finish
    else
      match h : s.step t ts with
      | .error e => .error e
      | .ok (s', rest) =>
        have : rest.length < (t :: ts).length := Nat.lt_succ_of_le (State.step_suffix h).length_le
        s'.run rest
termination_by ts => ts.length
decreasing_by exact this

theorem State.run_cons {t : Token} (h : t.kind ≠ .eof) (s : State) (ts : List Token) :
    s.run (t :: ts) = s.step t ts >>= fun (s', rest) => s'.run rest := by
  rw [State.run, if_neg h]
  split
  · next hs => simp only [hs]; rfl
  · next hs => simp only [hs]; rfl

/-! ### What a reading gives, beside a result that it has to lead to -/

variable {α β : Type} {around : List Block} {out : Outcome (List Node)}

/-- Inside the blocks `around`, the reading fails as `out` does, or it gives something with the
property. The open blocks are as before then. -/
inductive Tracks (around : List Block) (out : Outcome (List Node)) (x : Reading α) (P : α → Prop) :
    Prop
  | fails {e : Located ParseFault} :
      x.run.run around = (.error e, around) → out = .error e → Tracks around out x P
  | gives {a : α} : x.run.run around = (.ok a, around) → P a → Tracks around out x P

theorem Tracks.pure {P : α → Prop} {a : α} (h : P a) : Tracks around out (pure a) P :=
  .gives rfl h

theorem Tracks.throw {P : α → Prop} {e : Located ParseFault} (h : out = .error e) :
    Tracks around out (throw e) P :=
  .fails rfl h

theorem Tracks.get {P : List Block → Prop} (h : P around) : Tracks around out get P :=
  .gives rfl h

theorem run_bind (x : Reading α) (f : α → Reading β) (bs : List Block) :
    (x >>= f).run.run bs =
      match x.run.run bs with
      | (.ok a, bs') => (f a).run.run bs'
      | (.error e, bs') => (.error e, bs') := by
  simp only [bind, ExceptT.bind, StateT.bind, ExceptT.run, ExceptT.mk, StateT.run]
  rcases x bs with ⟨_ | a, t⟩ <;> rfl

theorem Tracks.bind {P : α → Prop} {Q : β → Prop} {x : Reading α} {f : α → Reading β}
    (h : Tracks around out x P) (hf : ∀ a, P a → Tracks around out (f a) Q) :
    Tracks around out (x >>= f) Q := by
  cases h with
  | fails hx ho => exact .fails (by rw [run_bind, hx]) ho
  | gives hx ha =>
    cases hf _ ha with
    | fails hfa ho => exact .fails (by rw [run_bind, hx]; exact hfa) ho
    | gives hfa hb => exact .gives (by rw [run_bind, hx]; exact hfa) hb

theorem run_inside (b : Block) (x : Reading α) (bs : List Block) :
    (do modify (b :: ·); try x finally modify List.tail : Reading α).run.run bs =
      ((x.run.run (b :: bs)).1, (x.run.run (b :: bs)).2.tail) := by
  have hpushed : (do modify (b :: ·); try x finally modify List.tail : Reading α).run.run bs =
      (tryFinally x (modify List.tail) : Reading α).run.run (b :: bs) := rfl
  rw [hpushed]
  simp only [tryFinally, tryFinally', Functor.map, ExceptT.map, bind, StateT.bind, ExceptT.run,
    ExceptT.mk, StateT.run]
  rcases x (b :: bs) with ⟨_ | a, t⟩ <;> rfl

/-- The block is open while the rest is read, and is not any more afterwards. -/
theorem Tracks.inside {P : α → Prop} {b : Block} {x : Reading α}
    (h : Tracks (b :: around) out x P) :
    Tracks around out (do modify (b :: ·); try x finally modify List.tail) P := by
  cases h with
  | fails hx ho => exact .fails (by rw [run_inside, hx]; rfl) ho
  | gives hx ha => exact .gives (by rw [run_inside, hx]; rfl) ha

theorem Tracks.lift {x : Outcome α} {f : α → Outcome (List Node)} (h : out = x >>= f) :
    Tracks around out (liftM x) fun a => out = f a := by
  cases x with
  | error e => exact .fails rfl h
  | ok a => exact .gives rfl h

theorem Tracks.consume {ts : List Token} {x : Outcome (α × List Token)}
    {hs : ∀ a rest, x = .ok (a, rest) → rest <:+ ts} {f : α × List Token → Outcome (List Node)}
    (h : out = x >>= f) :
    Tracks around out (consume x hs) fun c => out = f (c.value, c.rest) := by
  cases x with
  | error e => exact .throw h
  | ok r => exact .pure h

/-! ### The machine beside the recursion -/

variable {s : State} {stack : List OpenBlock} {ts : List Token}

/-- The tags at which the nodes of the innermost open block end. -/
def endsOf : List OpenBlock → List String
  | [] => []
  | b :: _ => b.header.ends

/-- How the machine goes on after nodes: at the end of the tokens it has finished, and a tag that
ends the nodes leads out of the block, or into its second branch. -/
def State.resume (s : State) : Option BlockEnd → List Token → Outcome (List Node)
  | none, _ => s.finish
  | some e, ts =>
    match s.endTag? e.name with
    | some s' => close e.name ts >>= fun ((), ts) => s'.run ts
    | none => fail e.token (.strayEnd e.name s.innermost?)

/-- The reading of nodes tracks the run of the machine, which goes on behind the nodes. -/
def NodesTracked (s : State) (ts : List Token) : Prop :=
  Tracks (blocksOf s.stack) (s.run ts) (nodes (endsOf s.stack) ts) fun c =>
    (∀ e ∈ c.value.2, e.name ∈ endsOf s.stack) ∧
      s.run ts = State.resume ⟨s.stack, c.value.1.reverse ++ s.nodes⟩ c.value.2 c.rest

/-- The reading of a block tracks the run of the machine that has opened it. -/
def BlockTracked (h : Header) (start : Location) (s : State) (ts : List Token) : Prop :=
  Tracks (blocksOf s.stack) ((s.open h start).run ts) (block h start ts) fun c =>
    (s.open h start).run ts = (s.add c.value).run c.rest

theorem body_tracks {h : Header} {start : Location}
    (hnodes : NodesTracked (s.open h start) ts) :
    Tracks (blocksOf s.stack) ((s.open h start).run ts) (body ⟨h.tag, start⟩ h.ends ts) fun c =>
      c.value.2.name ∈ h.ends ∧ (s.open h start).run ts =
        State.resume ⟨(s.open h start).stack, c.value.1.reverse⟩ (some c.value.2) c.rest := by
  rw [body]
  refine .inside (Tracks.bind hnodes ?_)
  rintro ⟨⟨ns, e⟩, rest, hle⟩ ⟨hends, hrun⟩
  cases e with
  | none => exact .throw hrun
  | some e => exact .pure ⟨hends e rfl, by simpa [State.open] using hrun⟩

/-- The machine goes on behind a tag that ended nodes and belongs to the innermost open block. -/
theorem close_tracks {s' : State} {e : BlockEnd} {x : Outcome (Unit × List Token)}
    {hs : ∀ u rest, x = .ok (u, rest) → rest <:+ ts} (hx : x = close e.name ts)
    (he : s.endTag? e.name = some s') (hrun : out = s.resume (some e) ts) :
    Tracks around out (consume x hs) fun c => out = s'.run c.rest := by
  subst hx
  simp only [State.resume, he] at hrun
  exact .consume hrun

/-- At its end tag a block is closed, and the machine goes on with its node. -/
theorem closeBlock_tracks {h : Header} {start : Location} {body : List Node} {e : BlockEnd}
    (he : e.name = h.endTag)
    (hrun : out = State.resume ⟨(s.open h start).stack, body.reverse⟩ (some e) ts) :
    Tracks around out (consume (closeBlock e h.endTag ts) fun _ _ => closeBlock_suffix) fun c =>
      out = (s.add (h.node start body)).run c.rest := by
  have hclose : State.endTag? ⟨(s.open h start).stack, body.reverse⟩ e.name =
      some (s.add (h.node start body)) := by simp [he, State.endTag?, State.open, State.add]
  exact close_tracks (if_pos he) hclose hrun

/-- A block that only its end tag ends. -/
theorem block_tracks_of_ends {h : Header} {start : Location} (hends : h.ends = [h.endTag])
    (hnodes : NodesTracked (s.open h start) ts) : BlockTracked h start s ts := by
  rw [BlockTracked, block]
  refine (body_tracks hnodes).bind ?_
  rintro ⟨⟨ns, e⟩, rest, hle⟩ ⟨he, hrun⟩
  rw [hends, List.mem_singleton] at he
  cases h with
  | conditional => simp [Header.ends] at hends
  | _ => exact (closeBlock_tracks he hrun).bind fun c hc => .pure hc

/-- A block is read as the machine goes through it. At `else` the machine is where a block with the
first branch in its header has just been opened. -/
theorem block_tracks {h : Header} {start : Location}
    (hnodes : ∀ us : List Token, us.length ≤ ts.length → ∀ s, NodesTracked s us) :
    BlockTracked h start s ts := by
  cases h with
  | conditional condition =>
    rw [BlockTracked, block]
    refine (body_tracks (hnodes ts (Nat.le_refl _) _)).bind ?_
    rintro ⟨⟨ns, e⟩, rest, hle⟩ ⟨he, hrun⟩
    obtain he | he : e.name = "else" ∨ e.name = "endif" := by simpa [Header.ends] using he
    · simp only [he, ↓reduceIte]
      have hsplit : State.endTag? ⟨(s.open (.conditional condition) start).stack, ns.reverse⟩
          e.name = some (s.open (.alternative condition ns) start) := by
        simp [he, State.endTag?, State.open, Header.endTag]
      refine (close_tracks (by rw [he]) hsplit hrun).bind ?_
      rintro ⟨_, rest', hle'⟩ hrun'
      rw [hrun']
      have hbranch : BlockTracked (.alternative condition ns) start s rest' :=
        block_tracks_of_ends rfl (hnodes rest' (Nat.le_trans hle' hle) _)
      exact hbranch.bind fun c hc => .pure hc
    · have hne : e.name ≠ "else" := by simp [he]
      simp only [hne, ↓reduceIte]
      exact (closeBlock_tracks he hrun).bind fun c hc => .pure hc
  | _ => exact block_tracks_of_ends rfl (hnodes ts (Nat.le_refl _) _)

/-- The machine after the tag that starts with `t`, when its name is known. -/
theorem element_tracks {t : Token} {name : String}
    (hnodes : ∀ us : List Token, us.length ≤ ts.length → ∀ s, NodesTracked s us)
    (hout : out =
      (match TagName.ofText? name with
      | none => fail t (.unknownTag name)
      | some name => (tag (blocksOf s.stack) t name ts).map fun (g, ts) =>
        (s.after t.location g, ts)) >>= fun (s', rest) => s'.run rest) :
    Tracks (blocksOf s.stack) out (element t name ts) fun c =>
      out = (s.add c.value).run c.rest := by
  rw [element]
  cases hn : TagName.ofText? name with
  | none =>
    simp only [hn] at hout
    exact .throw hout
  | some name =>
    simp only [hn, map_bind] at hout
    refine Tracks.bind (.get rfl) fun bs hbs => ?_
    subst hbs
    refine Tracks.bind (.consume hout) ?_
    rintro ⟨g, rest, hle⟩ hg
    cases g with
    | node n => exact .pure hg
    | block h =>
      dsimp only at hg ⊢
      rw [hg]
      exact (block_tracks fun us hus => hnodes us (Nat.le_trans hus hle)).bind fun c hc => .pure hc

theorem isSome_endTag? {name : String} :
    (s.endTag? name).isSome = true ↔ name ∈ endsOf s.stack := by
  obtain ⟨_ | ⟨⟨h, start, outside⟩, bs⟩, ns⟩ := s
  · simp [State.endTag?, endsOf]
  · by_cases hn : name = h.endTag
    · cases h <;> simp [State.endTag?, endsOf, hn, Header.ends, Header.endTag]
    · simp only [State.endTag?, endsOf, hn, ↓reduceIte]
      cases h with
      | conditional condition =>
        have hn : name ≠ "endif" := hn
        by_cases he : name = "else" <;> simp [he, hn, Header.ends]
      | _ => simpa [Header.ends] using hn

theorem innermost?_eq (s : State) :
    (blocksOf s.stack).head?.map (fun b => (b.name, b.start)) = s.innermost? := by
  cases h : s.stack <;> simp [blocksOf, State.innermost?, OpenBlock.block, h]

/-- The reading of what comes next among nodes tracks the run of the machine. -/
def ItemTracked (s : State) (t : Token) (ts : List Token) : Prop :=
  Tracks (blocksOf s.stack) (s.run (t :: ts)) (item (endsOf s.stack) t ts) fun c =>
    match c.value with
    | .node n => s.run (t :: ts) = (s.add n).run c.rest
    | .ending e => e.name ∈ endsOf s.stack ∧ s.run (t :: ts) = s.resume (some e) c.rest

/-- A tag ends the nodes before it just if the machine goes on with it. Any other end tag is a fault
of both. -/
theorem tag_item_tracks {t : Token} (hk : t.kind = .blockOpen)
    (hnodes : ∀ us : List Token, us.length ≤ ts.length → ∀ s, NodesTracked s us) :
    ItemTracked s t ts := by
  have hrun : s.run (t :: ts) = s.tag t ts >>= fun (s', rest) => s'.run rest := by
    have ht : t.kind ≠ .eof := by simp [hk]
    simp only [State.run_cons ht, State.step, hk]
  rw [ItemTracked, item.eq_def]
  simp only [hk]
  cases ts with
  | nil => exact .throw hrun
  | cons word ts =>
    simp only [State.tag] at hrun
    by_cases hw : word.kind = .ident
    · simp only [hw, ↓reduceIte, bind_assoc] at hrun ⊢
      refine Tracks.bind (.lift hrun) fun name hname => ?_
      by_cases hends : name ∈ endsOf s.stack
      · obtain ⟨s', he⟩ := Option.isSome_iff_exists.1 (isSome_endTag?.2 hends)
        simp only [he, map_bind] at hname
        simp only [List.contains_iff_mem, hends, ↓reduceIte]
        refine .pure ⟨hends, ?_⟩
        simpa only [State.resume, he] using hname
      · have he : s.endTag? name = none :=
          Option.not_isSome_iff_eq_none.1 fun he => hends (isSome_endTag?.1 he)
        simp only [he] at hname
        simp only [List.contains_iff_mem, hends, ↓reduceIte]
        by_cases hend : name ∈ endTags
        · simp only [List.contains_iff_mem, hend, ↓reduceIte] at hname ⊢
          refine Tracks.bind (.get rfl) fun bs hbs => .throw ?_
          rw [← hbs, innermost?_eq]
          exact hname
        · simp only [List.contains_iff_mem, hend, ↓reduceIte] at hname ⊢
          have hshorter : ∀ us : List Token, us.length ≤ ts.length → ∀ s, NodesTracked s us :=
            fun us hus => hnodes us (Nat.le_succ_of_le hus)
          exact (element_tracks hshorter hname).bind fun c hc => .pure hc
    · rw [if_neg hw] at hrun
      simp only [hw, ↓reduceIte]
      exact .throw hrun

theorem item_tracks {t : Token} (ht : t.kind ≠ .eof)
    (hnodes : ∀ us : List Token, us.length ≤ ts.length → ∀ s, NodesTracked s us) :
    ItemTracked s t ts := by
  by_cases hb : t.kind = .blockOpen
  · exact tag_item_tracks hb hnodes
  have hrun := State.run_cons ht s ts
  rw [State.step] at hrun
  rw [ItemTracked, item.eq_def]
  cases hk : t.kind with
  | text =>
    simp only [hk, map_bind] at hrun
    exact Tracks.bind (.lift hrun) fun v hv => .pure hv
  | varOpen =>
    simp only [hk, map_bind] at hrun
    exact Tracks.bind (.consume hrun) fun c hc => .pure hc
  | blockOpen => exact absurd hk hb
  | eof => exact absurd hk ht
  | _ =>
    simp only [hk] at hrun
    exact .throw hrun

/-- Reading nodes tracks the machine from any state. The induction is on the tokens that are left:
after a node the reading goes on with the rest of them, and so do the blocks in between. -/
theorem nodes_track (s : State) (ts : List Token) : NodesTracked s ts := by
  induction hn : ts.length using Nat.strongRecOn generalizing s ts with
  | ind n ih =>
  subst hn
  rw [NodesTracked]
  cases ts with
  | nil =>
    rw [nodes]
    exact .pure ⟨by simp, by simp [State.run, State.resume]⟩
  | cons t ts =>
    rw [nodes]
    by_cases ht : t.kind = .eof
    · rw [if_pos ht]
      exact .pure ⟨by simp, by simp [State.run, State.resume, ht]⟩
    · rw [if_neg ht]
      have hitem : ItemTracked s t ts :=
        item_tracks ht fun us hus s => ih us.length (Nat.lt_succ_of_le hus) s us rfl
      refine hitem.bind ?_
      rintro ⟨i, rest, hle⟩ hi
      cases i with
      | ending e => exact .pure ⟨by simpa using hi.1, by simpa using hi.2⟩
      | node n =>
        dsimp only at hi ⊢
        rw [hi]
        refine (ih rest.length (Nat.lt_succ_of_le hle) (s.add n) rest rfl).bind ?_
        rintro ⟨⟨ns, e⟩, rest', hle'⟩ ⟨hends, hrun⟩
        exact .pure ⟨hends, by simpa [State.add] using hrun⟩

/-- What recursive descent reads, and what it fails with, is what the machine ends with. -/
theorem ofTokens_eq_run (ts : List Token) : ofTokens ts = State.run {} ts := by
  have hnodes : NodesTracked {} ts := nodes_track {} ts
  rw [ofTokens]
  cases hnodes with
  | fails hx hrun =>
    have hx : (nodes [] ts).run [] = _ := hx
    rw [hx, hrun]
  | @gives c hx h =>
    obtain ⟨⟨ns, e⟩, rest, hle⟩ := c
    have hx : (nodes [] ts).run [] = _ := hx
    obtain ⟨hends, hrun⟩ := h
    cases e with
    | none => simp [hx, hrun, State.resume, State.finish]
    | some e => exact absurd (hends e rfl) List.not_mem_nil

end Parser
end CodeTemplate
