import CodeTemplate.Text.Lines

/-! Absolute paths in a file system, and texts that lead from one to another. -/

namespace CodeTemplate

/-- The names on the way from the root. -/
structure AbsolutePath where
  parts : List String
  deriving DecidableEq, Repr

namespace AbsolutePath

def root : AbsolutePath := ⟨[]⟩

def text (p : AbsolutePath) : String := "/" ++ "/".intercalate p.parts

/-- One step along a path: a dot stays, two dots lead back, and the root leads back to itself. -/
def step (parts : List String) (name : String) : List String :=
  if name = "" ∨ name = "." then parts
  else if name = ".." then parts.dropLast
  else parts ++ [name]

/-- Where a text leads to below a path, whether or not it starts with a slash. -/
def join (base : AbsolutePath) (s : String) : AbsolutePath :=
  ⟨(Text.split '/' s).foldl step base.parts⟩

/-- Where a text leads to from a path. A text that starts with a slash starts from the root. -/
def resolve (base : AbsolutePath) (s : String) : AbsolutePath :=
  if s.toList.head? = some '/' then root.join s else base.join s

def ofText (s : String) : AbsolutePath := root.resolve s

/-- The directory that holds the file at the path. -/
def parent (p : AbsolutePath) : AbsolutePath := ⟨p.parts.dropLast⟩

end AbsolutePath

/-- A directory that is asked for. A slash at the end of its name is shown with it. -/
structure Directory where
  path : AbsolutePath
  slash : Bool := false
  deriving DecidableEq, Repr

namespace Directory

def text (d : Directory) : String :=
  if d.slash && d.path ≠ .root then d.path.text ++ "/" else d.path.text

/-- The directory that a name leads to below a path. -/
def named (base : AbsolutePath) (s : String) : Directory :=
  ⟨base.join s, s.toList.getLast? = some '/'⟩

end Directory

end CodeTemplate
