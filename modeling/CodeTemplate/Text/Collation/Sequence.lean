import CodeTemplate.Text.Collation.Composite
import CodeTemplate.Text.Collation.Mark

/-! The characters of a text as they count for the order: taken apart, with their marks in one fixed
order, then put together where two of them are one letter. Characters are their codes here; codes
beyond all characters stand for parts of letters. -/

namespace CodeTemplate.Text.Collation

/-- The two or three letters of a Korean syllable. -/
def syllableParts? (c : Nat) : Option (List Nat) :=
  if 0xAC00 ≤ c ∧ c ≤ 0xD7A3 then
    let n := c - 0xAC00
    let closing := if n % 28 = 0 then [] else [0x11A7 + n % 28]
    some ([0x1100 + n / 588, 0x1161 + n % 588 / 28] ++ closing)
  else none

/-- The parts that a character is composed of, taken apart `depth` times. After four times nothing
is left to take apart. -/
def parts : Nat → Nat → List Nat
  | 0, c => [c]
  | depth + 1, c =>
    match (syllableParts? c).or (composed.findSome? (·.members? c)) with
    | some ms => ms.flatMap (parts depth)
    | none => [c]

/-- A character in front of others: a mark goes behind the marks of smaller classes. -/
def arrange (c : Nat) : List Nat → List Nat
  | [] => [c]
  | d :: ds => if 0 < classOf d ∧ classOf d < classOf c then d :: arrange c ds else c :: d :: ds

/-- Two characters that are one letter, if only marks of smaller classes stand between them. -/
structure Joint where
  first : Nat
  second : Nat
  whole : Nat

/-- A joint is written `first,second=whole`. -/
def Joint.ofText (s : String) : Joint :=
  match (split '=' s).map (split ',') with
  | [[first, second], [whole]] =>
    { first := hexadecimal first, second := hexadecimal second, whole := hexadecimal whole }
  | _ => { first := 0, second := 0, whole := 0 }

/-- The characters without the first `c` of them, which only marks of smaller classes precede. -/
def take? (c : Nat) : List Nat → Option (List Nat)
  | [] => none
  | d :: ds =>
    if d = c then some ds
    else if 0 < classOf d ∧ classOf d < classOf c then (take? c ds).map (d :: ·)
    else none

theorem length_of_take? {c : Nat} {cs rest : List Nat} (h : take? c cs = some rest) :
    rest.length < cs.length := by
  induction cs generalizing rest with
  | nil => simp [take?] at h
  | cons d ds ih =>
    simp only [take?] at h
    split at h
    · simp_all
    · split at h
      · cases ht : take? c ds with
        | none => simp [ht] at h
        | some r =>
          simp only [ht, Option.map_some, Option.some.injEq] at h
          subst h
          simpa using ih ht
      · simp at h

/-- The letter that a character makes with one of the characters after it, and the others. -/
def join? (js : List Joint) (c : Nat) (cs : List Nat) : Option (Nat × List Nat) :=
  js.findSome? fun j =>
    if j.first = c then (take? j.second cs).map (j.whole, ·) else none

theorem length_of_join? {js : List Joint} {c x : Nat} {cs rest : List Nat}
    (h : join? js c cs = some (x, rest)) : rest.length < cs.length := by
  obtain ⟨j, _, hj⟩ := List.exists_of_findSome?_eq_some h
  split at hj
  · cases ht : take? j.second cs with
    | none => simp [ht] at hj
    | some r =>
      simp only [ht, Option.map_some, Option.some.injEq, Prod.mk.injEq] at hj
      exact hj.2 ▸ length_of_take? ht
  · simp at hj

def joints : List Joint := (words "
  fb2,f71=110005 110005,f72=110006 110005,f74=110007 110005,f80=f77 fb3,f71=110008
  110008,f72=110009 110008,f74=11000a 110008,f80=f79 6c,b7=140 6c,387=140 4c,b7=13f 4c,387=13f
  438,306=439 418,306=419 627,653=622 627,654=623 648,654=624 627,655=625 64a,654=626 9c7,9be=9cb
  9c7,9d7=9cc b47,b56=b48 b47,b3e=b4b b47,b57=b4c b92,bd7=b94 bc6,bbe=bca bc7,bbe=bcb bc6,bd7=bcc
  c46,c56=c48 cbf,cd5=cc0 cc6,cd5=cc7 cc6,cd6=cc8 cc6,cc2=cca cca,cd5=ccb d46,d3e=d4a d47,d3e=d4b
  d46,d57=d4c dd9,dca=dda dd9,dcf=ddc ddc,dca=ddd dd9,ddf=dde 11347,1133e=1134b 11347,11357=1134c
  114b9,114ba=114bb 114b9,114b0=114bc 114b9,114bd=114be 115b8,115af=115ba 115b9,115af=115bb
  11935,11930=11938 e4d,e32=e33 ecd,eb2=eb3 f71,f72=11000b f71,f80=11000d f71,f74=11000c
  fb2,f80=f76 fb3,f80=f78 1025,102e=1026 11131,11127=1112e 11132,11127=1112f 1b05,1b35=1b06
  1b07,1b35=1b08 1b09,1b35=1b0a 1b0b,1b35=1b0c 1b0d,1b35=1b0e 1b11,1b35=1b12 1b3a,1b35=1b3b
  1b3c,1b35=1b3d 1b3e,1b35=1b40 1b3f,1b35=1b41 1b42,1b35=1b43").map Joint.ofText

/-- The vowels that are written before the consonants they are spoken after, with these: Thai, Lao,
New Tai Lue and Tai Viet. -/
def leadingVowels : List (List CodeRun × List CodeRun) := [
  (CodeRun.listOfText "e40+5", CodeRun.listOfText "e01+2e"),
  (CodeRun.listOfText "ec0+5",
    CodeRun.listOfText "e81+2 e84 e86+5 e8c+18 ea5 ea7+8 edc+4"),
  (CodeRun.listOfText "19b5+3 19ba", CodeRun.listOfText "1980+2c"),
  (CodeRun.listOfText "aab5+2 aab9 aabb+2", CodeRun.listOfText "aa80+30")]

def leads (v c : Nat) : Bool :=
  leadingVowels.any fun (vs, cs) => CodeRun.contains vs v && CodeRun.contains cs c

/-- The characters with each leading vowel after its consonant. -/
def inSpokenOrder : List Nat → List Nat
  | [] => []
  | [c] => [c]
  | c :: d :: cs =>
    if leads c d then d :: c :: inSpokenOrder cs else c :: inSpokenOrder (d :: cs)

/-- The characters joined to letters as far as possible. -/
def joined (js : List Joint) : List Nat → List Nat
  | [] => []
  | c :: cs =>
    match _h : join? js c cs with
    | some (x, rest) => joined js (x :: rest)
    | none => c :: joined js cs
termination_by cs => cs.length
decreasing_by
  · have := length_of_join? _h
    simp only [List.length_cons]
    omega
  · simp only [List.length_cons]
    omega

/-- The characters of a text in the form that the order looks at. -/
def normalized (s : String) : List Nat :=
  let cs := s.toList.flatMap fun c => parts 4 c.toNat
  joined joints (inSpokenOrder (cs.foldr arrange []))

end CodeTemplate.Text.Collation
