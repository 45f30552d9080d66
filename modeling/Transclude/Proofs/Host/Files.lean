import Transclude.Host.FileSystem
import Transclude.Proofs.Path.Components

/-!
# Files after they are written

A path to which a file can be written leads to one place, with or without the file.  Writing puts
it there and leaves all other places as they are, so the path leads there afterwards too, and what
is read from it is what was written.

Main results:

- Definition {lit}`FileSystem.Writable`: a file can be written to a path.
- Theorem {lit}`FileSystem.write_eq_ok_iff`: when writing succeeds, and what it comes to.
- Theorem {lit}`FileSystem.Writable.write_then_read`: what is written to a path is read from it.
-/

namespace Transclude

namespace FileSystem

variable {fs after : FileSystem} {path : String} {place : List String}

/-! ## Places and entries -/

/-- What is put at a place other than the root is there. -/
theorem entry?_put_self (hplace : place ≠ []) (entry : Entry) :
    FileSystem.entry? (fs.put place entry) place = some entry := by
  simp [FileSystem.entry?, put, hplace]

/-- All other places stay as they are. -/
theorem entry?_put_of_ne {other : List String} (h : other ≠ place) (entry : Entry) :
    FileSystem.entry? (fs.put place entry) other = fs.entry? other := by
  have hfind : (fs.put place entry).entries.find? (·.1 == other) =
      fs.entries.find? (·.1 == other) := by
    rw [put, List.find?_cons_of_neg (by simpa using h.symm), List.find?_filter]
    congr 1
    funext named
    by_cases hother : named.1 = other
    · simp [hother, h]
    · simp [hother]
  rw [FileSystem.entry?, FileSystem.entry?, hfind]

/-- A step that leads on from a directory still does after a file is put at a place where there is
no directory. -/
theorem step_put (hplace : fs.entry? place ≠ some .directory) (entry : Entry)
    {start next : List String} {component : String} (h : fs.step start component = .ok next) :
    (fs.put place entry).step start component = .ok next := by
  have hstart : fs.entry? start = some .directory := by
    unfold step at h
    split at h
    · cases h
    · cases h
    · assumption
  have hne : start ≠ place := by
    rintro rfl
    exact hplace hstart
  unfold step at h ⊢
  rwa [entry?_put_of_ne hne]

/-- So does a way of such steps. -/
theorem foldlM_step_put (hplace : fs.entry? place ≠ some .directory) (entry : Entry)
    {start next : List String} {components : List String}
    (h : components.foldlM fs.step start = .ok next) :
    components.foldlM (fs.put place entry).step start = .ok next := by
  induction components generalizing start with
  | nil => exact h
  | cons component components ih =>
    rw [List.foldlM_cons] at h ⊢
    cases hstep : fs.step start component with
    | error fault =>
      rw [hstep] at h
      cases h
    | ok between =>
      rw [hstep] at h
      rw [step_put hplace entry hstep]
      exact ih h

/-! ## Writing -/

/-- A file can be put at a place: there is one, which can be run or not, or nothing is there yet. -/
def Admits (fs : FileSystem) (place : List String) (executable : Bool) : Prop :=
  fs.entry? place = none ∧ executable = false ∨
    ∃ content, fs.entry? place = some (.file content executable)

/-- A path leads to a place where a file can be put. -/
structure Target (fs : FileSystem) (path : String) (place : List String) (executable : Bool) :
    Prop where
  text : textFault? path = none
  slash : path.toList.getLast? ≠ some '/'
  named : ∀ name ∈ (Path.components path).getLast?, name ≠ "." ∧ name ≠ ".."
  leads : (Path.components path).foldlM fs.step (fs.startOf path) = .ok place
  admits : fs.Admits place executable

theorem Admits.entry?_ne {executable : Bool} (h : fs.Admits place executable) :
    fs.entry? place ≠ some .directory := by
  rcases h with ⟨hentry, -⟩ | ⟨content, hentry⟩ <;> simp [hentry]

/-- Two steps one after the other come to a result if the second does on that of the first. -/
theorem bind_eq_ok_iff {α β : Type} {x : Except HostFault α} {f : α → Except HostFault β} {b : β} :
    (x >>= f) = .ok b ↔ ∃ a, x = .ok a ∧ f a = .ok b := by
  cases x with
  | error fault => exact ⟨nofun, fun ⟨_, h, _⟩ => nomatch h⟩
  | ok a => exact ⟨fun h => ⟨a, rfl, h⟩, fun ⟨_, h, hf⟩ => Except.ok.inj h ▸ hf⟩

/-- A file is put at a place unless there is a directory; it can be run as before. -/
theorem putFile_eq_ok_iff {content : List UInt8} :
    (match fs.entry? place with
      | some .directory => .error .isADirectory
      | some (.file _ executable) => .ok (fs.put place (.file content executable))
      | none => .ok (fs.put place (.file content false)) : Except HostFault FileSystem) =
        .ok after ↔
      ∃ executable, fs.Admits place executable ∧
        after = fs.put place (.file content executable) := by
  unfold Admits
  rcases hentry : fs.entry? place with _ | _ | ⟨old, executable⟩
  · simp [eq_comm]
  · simp
  · simp [eq_comm]

/-- Nothing is written to a path with something wrong with it. -/
theorem textFault?_of_write {content : List UInt8} (h : fs.write path content = .ok after) :
    textFault? path = none := by
  rcases htext : textFault? path with _ | fault
  · rfl
  · rw [write, htext] at h
    cases h

/-- Nothing is written to a path that ends in a slash. -/
theorem getLast?_of_write {content : List UInt8} (h : fs.write path content = .ok after) :
    path.toList.getLast? ≠ some '/' := by
  intro hslash
  simp only [write, textFault?_of_write h, hslash, true_or, if_true, bind_eq_ok_iff] at h
  obtain ⟨_, _, _, _, _, hthrow, _⟩ := h
  cases hthrow

/-- A path with a name at its end is followed up to there and then to the place of the name. -/
theorem write_concat_eq_ok_iff {content : List UInt8} {front : List String} {name : String}
    (hcomponents : Path.components path = front ++ [name]) (hname : name ≠ "")
    (htext : textFault? path = none) (hslash : path.toList.getLast? ≠ some '/') :
    fs.write path content = .ok after ↔
      (name ≠ "." ∧ name ≠ "..") ∧
      ∃ place, (front ++ [name]).foldlM fs.step (fs.startOf path) = .ok place ∧
        ∃ executable, fs.Admits place executable ∧
          after = fs.put place (.file content executable) := by
  have hdrop : (Path.components path).reverse.dropWhile (· == "") = name :: front.reverse := by
    rw [hcomponents, List.reverse_concat]
    exact List.dropWhile_cons_of_neg (by simpa using hname)
  simp only [List.foldlM_append, List.foldlM_cons, List.foldlM_nil, bind_pure, bind_eq_ok_iff]
  rw [write, htext]
  simp only [hdrop, hslash, false_or, List.tail_cons, List.reverse_reverse, List.headD_cons,
    bind_eq_ok_iff]
  by_cases hdots : name = "." ∨ name = ".."
  · simp only [hdots, if_true, bind_eq_ok_iff]
    constructor
    · rintro ⟨_, _, _, _, _, hthrow, _⟩
      cases hthrow
    · rintro ⟨⟨hdot, hdotdot⟩, -⟩
      exact absurd hdots (not_or.2 ⟨hdot, hdotdot⟩)
  · simp only [hdots, if_false, bind_eq_ok_iff]
    constructor
    · rintro ⟨dir, hdir, place, hplace, hput⟩
      exact ⟨not_or.1 hdots, place, ⟨dir, hdir, hplace⟩, putFile_eq_ok_iff.1 hput⟩
    · rintro ⟨-, place, ⟨dir, hdir, hplace⟩, hput⟩
      exact ⟨dir, hdir, place, hplace, putFile_eq_ok_iff.2 hput⟩

/-- Writing succeeds for the paths that lead to such a place, whatever is written. -/
theorem write_eq_ok_iff {content : List UInt8} :
    fs.write path content = .ok after ↔
      ∃ place executable, Target fs path place executable ∧
        after = fs.put place (.file content executable) := by
  have hname : textFault? path = none → path.toList.getLast? ≠ some '/' →
      ∃ front name, Path.components path = front ++ [name] ∧ name ≠ "" := by
    intro htext hslash
    refine Path.components_concat ?_ hslash
    rintro rfl
    cases htext
  constructor
  · intro h
    have htext := textFault?_of_write h
    have hslash := getLast?_of_write h
    obtain ⟨front, name, hcomponents, hname⟩ := hname htext hslash
    obtain ⟨hdots, place, hleads, executable, hadmits, hafter⟩ :=
      (write_concat_eq_ok_iff hcomponents hname htext hslash).1 h
    refine ⟨place, executable, ⟨htext, hslash, ?_, hcomponents ▸ hleads, hadmits⟩, hafter⟩
    simpa [hcomponents] using hdots
  · rintro ⟨place, executable, ⟨htext, hslash, hdots, hleads, hadmits⟩, hafter⟩
    obtain ⟨front, name, hcomponents, hname⟩ := hname htext hslash
    rw [hcomponents] at hdots hleads
    exact (write_concat_eq_ok_iff hcomponents hname htext hslash).2
      ⟨hdots name (by simp), place, hleads, executable, hadmits, hafter⟩

/-- A file can be written to a path. -/
def Writable (fs : FileSystem) (path : String) : Prop :=
  ∃ after, fs.write path [] = .ok after

/-- A file that can be written to has a name. -/
theorem Writable.ne_empty (h : fs.Writable path) : path ≠ "" := by
  rintro rfl
  obtain ⟨after, hafter⟩ := h
  cases textFault?_of_write hafter

/-- Whatever is written to a path, if a file can be written to it, is read from it afterwards. -/
theorem Writable.write_then_read (h : fs.Writable path) (content : List UInt8) :
    ∃ after, fs.write path content = .ok after ∧ after.read path = .ok content := by
  obtain ⟨after, hafter⟩ := h
  obtain ⟨place, executable, htarget, -⟩ := write_eq_ok_iff.1 hafter
  refine ⟨_, write_eq_ok_iff.2 ⟨place, executable, htarget, rfl⟩, ?_⟩
  have hdirectory := htarget.admits.entry?_ne
  have hplace : place ≠ [] := by
    rintro rfl
    exact hdirectory rfl
  have hleads := foldlM_step_put hdirectory (.file content executable) htarget.leads
  have hlocate : (fs.put place (.file content executable)).locate path =
      .ok (place, .file content executable) := by
    rw [locate, htarget.text]
    refine bind_eq_ok_iff.2 ⟨place, hleads, ?_⟩
    rw [entry?_put_self hplace]
    rfl
  exact bind_eq_ok_iff.2 ⟨_, hlocate, rfl⟩

end FileSystem

end Transclude
