/-! The beginnings and ends of texts. -/

namespace CodeTemplate.Text

/-- What follows `lead` in `cs`, if `cs` starts with it. -/
def after? : (lead cs : List Char) → Option (List Char)
  | [], cs => some cs
  | _ :: _, [] => none
  | l :: lead, c :: cs => if l = c then after? lead cs else none

theorem after?_eq_some {lead cs rest : List Char} (h : after? lead cs = some rest) :
    cs = lead ++ rest := by
  induction lead generalizing cs with
  | nil => simpa [after?] using h
  | cons l lead ih =>
    cases cs with
    | nil => simp [after?] at h
    | cons c cs =>
      by_cases hc : l = c
      · simp [after?, hc] at h
        simp [hc, ih h]
      · simp [after?, hc] at h

def endsWith (s ending : String) : Bool := ending.toList.isSuffixOf s.toList

end CodeTemplate.Text
