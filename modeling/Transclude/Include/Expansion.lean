import Transclude.Include.Directive
import Transclude.Splice
import Transclude.Walk.Views

/-!
# Expansion

Every directive of a document, in notes too, makes way for the documents that it names, each in
a division of its own.  The files of an included document are found from its own directory.

A fragment is expanded in two phases.  First all directives are looked up in document order and
what they make way for is put in a queue.  Then the fragment is edited in the same order, and
each directive takes the front of the queue.

Main definitions:

- {lit}`Converter`: how files become documents.
- {lit}`Expansion.fragment`: the two phases, given a way to include one file.
- {lit}`Expansion.includeFile`: one file, with all that it includes in turn.
- {lit}`Document.expand`: a whole document.
-/

namespace Transclude

/-- What a converter is asked for: a file, the dialect it is written in, and the files that are
open around it, the outermost first. -/
structure Request where
  path : Path
  dialect : String
  openFiles : List Path
  deriving DecidableEq, Repr, Inhabited

/-- How files become documents, with the effects that this takes. -/
abbrev Converter (m : Type → Type) := Request → m (Except ConverterError Document)

namespace Expansion

variable {m : Type → Type} [Monad m]

/-! ## One fragment -/

/-- How one file is included: the text of the directive that names it, its place and its
dialect give the block that it becomes. -/
abbrev Inclusion (m : Type → Type) := (directive : String) → Path → (dialect : String) →
  ExceptT IncludeError m Block

/-- The blocks that a directive makes way for, one for each file it names. -/
def directive (options : Options) (inclusion : Inclusion m) (baseDir text : String) :
    ExceptT IncludeError m (List Block) := do
  let refs ← ExceptT.mk (pure (options.parseDirective baseDir text))
  refs.mapM fun ref => inclusion text (Path.resolve baseDir ref.path) ref.dialect

/-- The texts of the directives among some blocks and below them, in document order. -/
def directives (options : Options) (bs : List Block) : List String :=
  ((Walk.codeBlocks bs true).toList.filter fun code => options.isDirective code.1).map Prod.snd

/-- The blocks that a directive makes way for; any other block stays. -/
def atDirective {n : Type → Type} [Monad n] (options : Options)
    (insert : String → n (List Block)) : Block → n (Option (List Block))
  | .codeBlock attr text =>
    if options.isDirective attr then return some (← insert text) else return none
  | _ => return none

/-- Take the front of a queue. -/
def takeFront (text : String) : StateT (List (List Block)) (Except IncludeError) (List Block) := do
  match ← get with
  | front :: rest =>
    set rest
    return front
  | [] => throw (.unplannedDirective text)

/-- Edit blocks so that every directive takes the front of a queue. -/
def fill (options : Options) (queue : List (List Block)) (bs : List Block) :
    Except IncludeError (List Block) :=
  (Splice.replaceBlocks true (atDirective options takeFront) bs).run' queue

/-- Expand a fragment in two phases; one without directives stays as it is. -/
def fragment (options : Options) (inclusion : Inclusion m) (baseDir : String)
    (bs : List Block) : ExceptT IncludeError m (List Block) := do
  let queue ← (directives options bs).mapM (directive options inclusion baseDir)
  if queue.isEmpty then return bs
  else ExceptT.mk (pure (fill options queue bs))

/-! ## Files in files -/

/-- The division that holds an included document. -/
def container (options : Options) (bs : List Block) : Block :=
  .div (.ofClasses [options.containerClass]) bs

/-- Include one file inside the files that are open, when {lit}`room` more may be opened.

A file that is open already is a cycle, which is noticed before the lack of room is. -/
def includeFile (options : Options) (converter : Converter m) :
    (room : Nat) → (openFiles : List Path) → Inclusion m
  | room, openFiles, directive, path, dialect => do
    if path ∈ openFiles then throw (.cycle (openFiles ++ [path]))
    match room with
    | 0 => throw (.depthExceeded options.maxDepth path)
    | room + 1 =>
      match ← converter ⟨path, dialect, openFiles⟩ with
      | .error cause => throw (.convert path directive cause)
      | .ok document =>
        let bs ← fragment options (includeFile options converter room (openFiles ++ [path]))
          path.parent.toText document.blocks
        return container options bs

/-- Expand blocks that no file has been opened for. -/
def blocks (options : Options) (converter : Converter m) (baseDir : String) (bs : List Block) :
    ExceptT IncludeError m (List Block) :=
  fragment options (includeFile options converter options.maxDepth []) baseDir bs

end Expansion

/-- Expand the blocks of a document; its version and metadata stay as they are. -/
def Document.expand {m : Type → Type} [Monad m] (options : Options) (converter : Converter m)
    (baseDir : String) (d : Document) : ExceptT IncludeError m Document := do
  let bs ← Expansion.blocks options converter baseDir d.blocks
  return { d with blocks := bs }

end Transclude
