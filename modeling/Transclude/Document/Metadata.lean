import Transclude.Document.Basic

/-!
# Metadata

Metadata remembers the order of insertion.  Inserting a key that is already there replaces its
value and moves the key to the end.

Main results:

- Theorem {lit}`Meta.get?_insert_self`: an inserted value is found.
- Theorem {lit}`Meta.get?_insert_of_ne`: inserting one key leaves the others alone.
- Theorem {lit}`Meta.keys_insert`: the inserted key is the last one.
-/

namespace Transclude

namespace Meta

/-- The keys, in order. -/
def keys (entries : Meta) : List String :=
  entries.map Prod.fst

/-- The value of a key. -/
def get? (entries : Meta) (key : String) : Option MetaValue :=
  (entries.find? (·.1 == key)).map Prod.snd

/-- Give a key a value and put it last. -/
def insert (entries : Meta) (key : String) (value : MetaValue) : Meta :=
  entries.filter (·.1 != key) ++ [(key, value)]

/-- The metadata that results from inserting entries one after the other. -/
def ofEntries (entries : List (String × MetaValue)) : Meta :=
  entries.foldl (fun m e => insert m e.1 e.2) []

/-- The inserted key is the last one. -/
theorem keys_insert (entries : Meta) (key : String) (value : MetaValue) :
    keys (insert entries key value) = (keys entries).filter (· != key) ++ [key] := by
  simp only [keys, insert, List.map_append, List.map_cons, List.map_nil, List.filter_map]
  rfl

/-- An inserted value is found. -/
theorem get?_insert_self (entries : Meta) (key : String) (value : MetaValue) :
    get? (insert entries key value) key = some value := by
  have hfilter : (entries.filter (·.1 != key)).find? (·.1 == key) = none := by
    simp [List.find?_eq_none]
  simp [get?, insert, List.find?_append, hfilter]

/-- Inserting one key leaves the others alone. -/
theorem get?_insert_of_ne (entries : Meta) {key other : String} (value : MetaValue)
    (h : other ≠ key) : get? (insert entries key value) other = get? entries other := by
  have hsingle : ([(key, value)] : Meta).find? (·.1 == other) = none := by
    simp [Ne.symm h]
  have hfilter : (entries.filter (·.1 != key)).find? (·.1 == other) =
      entries.find? (·.1 == other) := by
    induction entries with
    | nil => rfl
    | cons e rest ih =>
      by_cases he : e.1 = other
      · have : e.1 ≠ key := fun hk => h (he ▸ hk)
        simp [he, h]
      · by_cases hk : e.1 = key <;> simp_all
  simp only [get?, insert, List.find?_append, hfilter, hsingle, Option.or_none]

end Meta

namespace MetaValue

/-- The value of a key, if this is a map. -/
def get? : MetaValue → String → Option MetaValue
  | .map entries, key => Meta.get? entries key
  | _, _ => none

/-- Follow keys through nested maps. -/
def getPath? (value : MetaValue) : List String → Option MetaValue
  | [] => some value
  | key :: keys => do getPath? (← value.get? key) keys

end MetaValue

namespace Meta

/-- The value at the end of a path of keys; the empty path leads nowhere. -/
def getPath? (entries : Meta) : List String → Option MetaValue
  | [] => none
  | key :: keys => do (← get? entries key).getPath? keys

end Meta

end Transclude
