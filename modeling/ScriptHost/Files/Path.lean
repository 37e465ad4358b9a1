import ScriptHost.Text.Parts

/-!
# Path names

A path is text; two paths name the same place in a tree without links when their components agree.
Repeated separators and `.` components do not count, `..` does.
-/

namespace ScriptHost

namespace Path

def isAbsolute (path : String) : Bool := path.toList.head? == some '/'

/-- The components of a path; a leading `.` of a relative path is one of them. -/
def components (path : String) : List String :=
  match splitText '/' path with
  | [] => []
  | first :: rest =>
    let kept := rest.filter fun part => part ≠ "" && part ≠ "."
    if first = "" then kept else first :: kept

/-- Component-wise equality. -/
def Same (a b : String) : Prop := isAbsolute a = isAbsolute b ∧ components a = components b

instance (a b : String) : Decidable (Same a b) := inferInstanceAs (Decidable (_ ∧ _))

theorem Same.refl (a : String) : Same a a := ⟨rfl, rfl⟩

theorem Same.symm {a b : String} (h : Same a b) : Same b a := ⟨h.1.symm, h.2.symm⟩

theorem Same.trans {a b c : String} (h : Same a b) (k : Same b c) : Same a c :=
  ⟨h.1.trans k.1, h.2.trans k.2⟩

/-- A name below a directory; an absolute name stands for itself. -/
def join (directory name : String) : String :=
  if isAbsolute name || directory = "" then name
  else if directory.toList.getLast? = some '/' then directory ++ name
  else directory ++ "/" ++ name

end Path

end ScriptHost
