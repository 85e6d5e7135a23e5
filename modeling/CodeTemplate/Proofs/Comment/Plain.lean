import CodeTemplate.Comment.Plain
import CodeTemplate.Proofs.Text.Infix

/-! Text that was written as markup is read back from it. Tags go and entities are decoded, and
neither is taken for the other, nor for a part of the text. -/

namespace CodeTemplate.Comment

/-- A character as markup writes it: five of them as entities. -/
def escapeChar : Char → List Char
  | '&' => ['&', 'a', 'm', 'p', ';']
  | '<' => ['&', 'l', 't', ';']
  | '>' => ['&', 'g', 't', ';']
  | '"' => ['&', 'q', 'u', 'o', 't', ';']
  | '\'' => ['&', '#', '3', '9', ';']
  | c => [c]

def escape (s : String) : String := String.ofList (s.toList.flatMap escapeChar)

/-- A tag that opens or closes an element. The name of the element starts with one of the letters
from `a` to `z` or from `A` to `Z`, and all up to the `>` is `inner`. -/
structure MarkupTag where
  closing : Bool
  letter : Char
  inner : List Char
  isAlpha : letter.isAlpha = true
  plain : ∀ c ∈ inner, c ≠ '<' ∧ c ≠ '>'

namespace MarkupTag

/-- What stands behind the `<`. -/
def tail (t : MarkupTag) : List Char :=
  (if t.closing then ['/'] else []) ++ t.letter :: (t.inner ++ ['>'])

def text (t : MarkupTag) : String := String.ofList ('<' :: t.tail)

end MarkupTag

/-! ### Entities -/

theorem decodeEntities_cons {c : Char} (h : c ≠ '&') (cs : List Char) :
    decodeEntities (c :: cs) = c :: decodeEntities cs := by
  rw [decodeEntities]
  all_goals simp_all

theorem decodeEntities_escapeChar (c : Char) (cs : List Char) :
    decodeEntities (escapeChar c ++ cs) = c :: decodeEntities cs := by
  unfold escapeChar
  split
  -- All but five characters are written as themselves.
  case h_6 hamp _ _ _ _ => exact decodeEntities_cons hamp cs
  all_goals simp [decodeEntities]

/-- Each entity is decoded by itself, whatever it is decoded to. -/
theorem decodeEntities_flatMap (cs : List Char) : decodeEntities (cs.flatMap escapeChar) = cs := by
  induction cs with
  | nil => simp [decodeEntities]
  | cons c cs ih => rw [List.flatMap_cons, decodeEntities_escapeChar, ih]

theorem ne_of_mem_escapeChar {c d : Char} (h : d ∈ escapeChar c) : d ≠ '<' := by
  unfold escapeChar at h
  split at h
  case h_6 hlt _ _ _ =>
    obtain rfl : d = c := by simpa using h
    exact hlt
  all_goals
    rintro rfl
    simp at h

/-! ### Tags -/

/-- Text without a `<` stays when tags are dropped. -/
theorem dropTags_append {cs : List Char} (h : ∀ c ∈ cs, c ≠ '<') (rest : List Char) :
    dropTags (cs ++ rest) = cs ++ dropTags rest := by
  induction cs with
  | nil => rfl
  | cons c cs ih =>
    obtain ⟨hc, hcs⟩ := List.forall_mem_cons.1 h
    rw [List.cons_append, dropTags, if_neg hc, ih hcs, List.cons_append]

namespace MarkupTag

/-- Behind its name's first letter, a tag goes up to the first `>`. -/
theorem takeWhile_inner (t : MarkupTag) (rest : List Char) :
    (t.inner ++ '>' :: rest).takeWhile (fun c => c != '<' && c != '>') = t.inner := by
  refine Text.takeWhile_lead (fun c hc => ?_) (by simp)
  obtain ⟨hopen, hclose⟩ := t.plain c hc
  simp [hopen, hclose]

theorem tagLength?_tail (t : MarkupTag) (rest : List Char) :
    tagLength? (t.tail ++ rest) = some t.tail.length := by
  -- A slash is looked for first, where the letter stands if there is none.
  have hslash : t.letter ≠ '/' := by
    intro h
    have halpha := t.isAlpha
    rw [h] at halpha
    exact absurd halpha (by decide)
  have hinner := t.takeWhile_inner rest
  cases hc : t.closing with
  | false => simp [tail, tagLength?, hc, hslash, t.isAlpha, hinner]
  | true =>
    have hlength : t.tail.length = 1 + t.inner.length + 2 := by
      simp only [tail, hc, ↓reduceIte, List.length_append, List.length_cons, List.length_nil]
      omega
    rw [hlength]
    simp [tail, tagLength?, hc, t.isAlpha, hinner]

/-- A tag goes as a whole, and what stands behind it is looked at by itself. -/
theorem dropTags_text (t : MarkupTag) (rest : List Char) :
    dropTags (t.text.toList ++ rest) = dropTags rest := by
  rw [text, String.toList_ofList, List.cons_append, dropTags, if_pos rfl, t.tagLength?_tail]
  simp

end MarkupTag

theorem dropTags_escape (s : String) (rest : List Char) :
    dropTags ((escape s).toList ++ rest) = (escape s).toList ++ dropTags rest := by
  refine dropTags_append (fun c hc => ?_) rest
  rw [escape, String.toList_ofList] at hc
  obtain ⟨d, -, hd⟩ := List.mem_flatMap.1 hc
  exact ne_of_mem_escapeChar hd

theorem dropTags_marked (parts : List (MarkupTag × String)) :
    dropTags (String.join (parts.map fun part => part.1.text ++ escape part.2)).toList =
      (parts.map Prod.snd).flatMap fun s => (escape s).toList := by
  induction parts with
  | nil => simp [dropTags]
  | cons part parts ih =>
    rw [List.map_cons, String.join_cons, String.toList_append, String.toList_append,
      List.append_assoc, part.1.dropTags_text, dropTags_escape, ih, List.map_cons, List.flatMap_cons]

/-- Texts that are written as markup, with tags between them, are read back without the tags. -/
theorem plainText_escape :
    (∀ s : String, plainText (escape s) = s) ∧
      ∀ (s : String) (parts : List (MarkupTag × String)),
        plainText (escape s ++ String.join (parts.map fun part => part.1.text ++ escape part.2)) =
          s ++ String.join (parts.map Prod.snd) := by
  have hall : ∀ (s : String) (parts : List (MarkupTag × String)),
      plainText (escape s ++ String.join (parts.map fun part => part.1.text ++ escape part.2)) =
        s ++ String.join (parts.map Prod.snd) := by
    intro s parts
    have hkept : dropTags
        (escape s ++ String.join (parts.map fun part => part.1.text ++ escape part.2)).toList =
          (s ++ String.join (parts.map Prod.snd)).toList.flatMap escapeChar := by
      rw [String.toList_append, dropTags_escape, dropTags_marked]
      simp [escape, List.flatMap_assoc]
    rw [plainText, hkept, decodeEntities_flatMap, String.ofList_toList]
  refine ⟨fun s => ?_, hall⟩
  simpa using hall s []

/-- What an entity is decoded to opens no tag and is part of no other entity. -/
example : plainText "&lt;b&gt;<b title='&lt;'>&amp;amp;</b> < c" = "<b>&amp; < c" := by cbv

end CodeTemplate.Comment
