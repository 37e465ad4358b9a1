import Mathlib.Data.List.Basic
import ScriptHost.Settings.Validity

/-!
# Names of namespaces

Valid settings give every namespace a name that a script can write and that no other global of a run
has: neither one that the run installs itself nor another namespace.
-/

namespace ScriptHost

/-- A letter from A to Z, in either case, or an underscore. -/
def IsLetter (c : Char) : Prop := 'A' ≤ c ∧ c ≤ 'Z' ∨ 'a' ≤ c ∧ c ≤ 'z' ∨ c = '_'

/-- A letter, with letters and digits after it. -/
def Identifier (name : String) : Prop :=
  ∃ first rest, name.toList = first :: rest ∧ IsLetter first ∧
    ∀ c ∈ rest, IsLetter c ∨ '0' ≤ c ∧ c ≤ '9'

theorem isLetter_iff (c : Char) : c.isAlpha = true ∨ c = '_' ↔ IsLetter c := by
  have upper : c.isUpper = true ↔ 'A' ≤ c ∧ c ≤ 'Z' := decide_eq_true_iff
  have lower : c.isLower = true ↔ 'a' ≤ c ∧ c ≤ 'z' :=
    Bool.and_eq_true_iff.trans (and_congr decide_eq_true_iff decide_eq_true_iff)
  have letter : c.isAlpha = true ↔ c.isUpper = true ∨ c.isLower = true := Bool.or_eq_true_iff
  rw [IsLetter, letter, upper, lower, or_assoc]

theorem isIdentifier_iff (name : String) : isIdentifier name = true ↔ Identifier name := by
  have digit (c : Char) : c.isDigit = true ↔ '0' ≤ c ∧ c ≤ '9' :=
    Bool.and_eq_true_iff.trans (and_congr decide_eq_true_iff decide_eq_true_iff)
  have alphanum (c : Char) : c.isAlphanum = true ↔ c.isAlpha = true ∨ c.isDigit = true :=
    Bool.or_eq_true_iff
  unfold isIdentifier Identifier
  split
  · next empty => simp [empty]
  · next first rest parts =>
    simp only [Bool.and_eq_true, Bool.or_eq_true, beq_iff_eq, List.all_eq_true, alphanum,
      parts, List.cons.injEq, ← isLetter_iff, ← digit]
    constructor
    · rintro ⟨letter, others⟩
      exact ⟨first, rest, ⟨rfl, rfl⟩, letter.symm, fun c among => by
        rcases others c among with same | alpha | digit <;> simp_all⟩
    · rintro ⟨_, _, ⟨rfl, rfl⟩, letter, others⟩
      exact ⟨letter.symm, fun c among => by
        rcases others c among with (alpha | same) | digit <;> simp_all⟩

namespace BindingSettings

/-- Namespaces are accepted exactly if their names are identifiers that were not taken. -/
theorem validateNamespaces_iff {taken : List String} (distinct : taken.Nodup)
    (namespaces : List NamespaceSettings) :
    validateNamespaces taken namespaces = .ok () ↔
      (∀ ns ∈ namespaces, Identifier ns.name) ∧ (taken ++ namespaces.map (·.name)).Nodup := by
  induction namespaces generalizing taken with
  | nil => simpa [validateNamespaces] using distinct
  | cons ns rest ih =>
    rw [validateNamespaces, List.map_cons, List.perm_middle.nodup_iff, List.forall_mem_cons,
      ← isIdentifier_iff]
    by_cases written : isIdentifier ns.name = true
    · by_cases used : ns.name ∈ taken
      · simp [written, used]
      · have free : (ns.name :: taken).Nodup := List.nodup_cons.2 ⟨used, distinct⟩
        simp only [written, Bool.not_true, Bool.false_eq_true, if_false, used, ih free, true_and,
          List.cons_append]
    · simp [written]

/-- The names that every run takes itself, in the order in which it does. -/
theorem validate_iff (b : BindingSettings) : b.validate = .ok () ↔
    (∀ ns ∈ b.namespaces, Identifier ns.name) ∧
      (["print", "log", "require", "client", "ctx"] ++ b.namespaces.map (·.name)).Nodup := by
  have order : reservedGlobals.Perm ["print", "log", "require", "client", "ctx"] := by decide
  rw [validate, validateNamespaces_iff (by decide), (order.append_right _).nodup_iff]

end BindingSettings

/-- Valid settings are so in each of their parts. -/
theorem Settings.validate_binding {s : Settings} (valid : s.validate = .ok ()) :
    s.binding.validate = .ok () := by
  rw [Settings.validate] at valid
  cases modules : s.modules.validate with
  | error e =>
    rw [modules] at valid
    cases valid
  | ok _ =>
    cases binding : s.binding.validate with
    | error e =>
      rw [modules, binding] at valid
      cases valid
    | ok _ => rfl

end ScriptHost
