/-!
# Named kinds

Finite types whose members have distinct written names.

Main results:

- Definition {lit}`Named.ofName?`: the member of a name.
- Theorem {lit}`Named.ofName?_name`: a member is found by its name.
- Theorem {lit}`Named.name_of_ofName?`: a found member has the name asked for.
-/

namespace Transclude

/-- A type whose members are listed in declaration order and known by distinct names. -/
class Named (α : Type) where
  all : List α
  name : α → String
  find?_name : ∀ a : α, all.find? (fun b => name b == name a) = some a

namespace Named

variable {α : Type} [Named α]

/-- The member of a name. -/
def ofName? (text : String) : Option α :=
  all.find? fun a => name a == text

/-- A member is found by its name. -/
@[simp] theorem ofName?_name (a : α) : ofName? (name a) = some a :=
  find?_name a

/-- A found member has the name asked for. -/
theorem name_of_ofName? {text : String} {a : α} (h : ofName? text = some a) : name a = text := by
  simpa using List.find?_some h

end Named

end Transclude
