/-! Descriptions freed from markup: tags are dropped, and the entities of five characters are
decoded. -/

namespace CodeTemplate.Comment

/-- The number of characters up to the end of the tag that a `<` before `cs` opens: a slash or none,
a letter, and all up to the next `>`, with no `<` among it. -/
def tagLength? (cs : List Char) : Option Nat :=
  let slash := if cs.head? = some '/' then 1 else 0
  match cs.drop slash with
  | [] => none
  | c :: cs =>
    let inner := cs.takeWhile fun c => c != '<' && c != '>'
    if c.isAlpha && (cs.drop inner.length).head? == some '>' then some (slash + inner.length + 2)
    else none

/-- The text without its tags. A `<` that opens no tag stays. -/
def dropTags : List Char → List Char
  | [] => []
  | c :: cs =>
    if c = '<' then
      match tagLength? cs with
      | some n => dropTags (cs.drop n)
      | none => c :: dropTags cs
    else c :: dropTags cs
termination_by cs => cs.length

/-- The text with its entities decoded, each once. -/
def decodeEntities : List Char → List Char
  | '&' :: 'l' :: 't' :: ';' :: cs => '<' :: decodeEntities cs
  | '&' :: 'g' :: 't' :: ';' :: cs => '>' :: decodeEntities cs
  | '&' :: 'q' :: 'u' :: 'o' :: 't' :: ';' :: cs => '"' :: decodeEntities cs
  | '&' :: '#' :: '3' :: '9' :: ';' :: cs => '\'' :: decodeEntities cs
  | '&' :: 'a' :: 'm' :: 'p' :: ';' :: cs => '&' :: decodeEntities cs
  | c :: cs => c :: decodeEntities cs
  | [] => []

def plainText (s : String) : String := String.ofList (decodeEntities (dropTags s.toList))

end CodeTemplate.Comment
