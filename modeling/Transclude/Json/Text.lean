import Transclude.Json.Token

/-!
# JSON texts

Writing a value as its tokens, and reading a value back from tokens.  The reader walks the
token list once with a stack of open containers, so it needs no recursion but the list's own.

Main results:

- Theorem {lit}`Json.tokensThen_eq`: tokens are written without regard to what follows.
- Definition {lit}`Json.render`: the compact text of a value.
- Definition {lit}`Json.parse?`: the value of a text, none when the text is malformed.
- Definition {lit}`Json.depth`: how many containers a value nests.
-/

namespace Transclude.Json

/-! ## Writing -/

mutual

/-- The tokens of a value in front of others. -/
def tokensThen : Json → List Token → List Token
  | .null, after => .null :: after
  | .bool b, after => .bool b :: after
  | .num n, after => .num n :: after
  | .str s, after => .str s :: after
  | .arr elements, after => .openArray :: elementsThen elements (.closeArray :: after)
  | .obj members, after => .openObject :: membersThen members (.closeObject :: after)

/-- The tokens of the elements of an array, with commas between them, in front of others. -/
def elementsThen : List Json → List Token → List Token
  | [], after => after
  | [v], after => tokensThen v after
  | v :: w :: rest, after => tokensThen v (.comma :: elementsThen (w :: rest) after)

/-- The tokens of the members of an object, with commas between them, in front of others. -/
def membersThen : List (String × Json) → List Token → List Token
  | [], after => after
  | [(k, v)], after => .str k :: .colon :: tokensThen v after
  | (k, v) :: m :: rest, after =>
    .str k :: .colon :: tokensThen v (.comma :: membersThen (m :: rest) after)

end

/-- The tokens of a value. -/
def tokens (v : Json) : List Token :=
  tokensThen v []

mutual

/-- What follows a value is carried along. -/
theorem tokensThen_append (v : Json) (front back : List Token) :
    tokensThen v (front ++ back) = tokensThen v front ++ back := by
  cases v with
  | null | bool | num | str => simp [tokensThen]
  | arr elements =>
    rw [tokensThen, tokensThen, ← List.cons_append, elementsThen_append elements,
      List.cons_append]
  | obj members =>
    rw [tokensThen, tokensThen, ← List.cons_append, membersThen_append members,
      List.cons_append]

/-- So is what follows the elements of an array. -/
theorem elementsThen_append (elements : List Json) (front back : List Token) :
    elementsThen elements (front ++ back) = elementsThen elements front ++ back := by
  match elements with
  | [] => simp [elementsThen]
  | [v] => simp [elementsThen, tokensThen_append v]
  | v :: w :: rest =>
    rw [elementsThen, elementsThen, elementsThen_append (w :: rest), ← List.cons_append,
      tokensThen_append v]

/-- So is what follows the members of an object. -/
theorem membersThen_append (members : List (String × Json)) (front back : List Token) :
    membersThen members (front ++ back) = membersThen members front ++ back := by
  match members with
  | [] => simp [membersThen]
  | [(k, v)] => simp [membersThen, tokensThen_append v]
  | (k, v) :: m :: rest =>
    rw [membersThen, membersThen, membersThen_append (m :: rest), ← List.cons_append,
      tokensThen_append v]
    rfl

end

/-- Tokens in front of others are the tokens of the value, followed by the others. -/
theorem tokensThen_eq (v : Json) (after : List Token) : tokensThen v after = v.tokens ++ after :=
  tokensThen_append v [] after

/-- The compact text of a value: its tokens without blanks. -/
def render (v : Json) : String :=
  String.ofList (v.tokens.flatMap Token.spelling)

mutual

/-- How many containers a value nests, itself included. -/
def depth : Json → Nat
  | .arr elements => elementDepth elements + 1
  | .obj members => memberDepth members + 1
  | _ => 0

/-- The greatest depth of the elements of an array. -/
def elementDepth : List Json → Nat
  | [] => 0
  | v :: rest => max (depth v) (elementDepth rest)

/-- The greatest depth of the members of an object. -/
def memberDepth : List (String × Json) → Nat
  | [] => 0
  | (_, v) :: rest => max (depth v) (memberDepth rest)

end

/-! ## Reading -/

/-- The most containers that a text may nest. -/
def depthLimit : Nat :=
  127

/-- An open container: what it holds so far, the latest first. -/
inductive Frame where
  | array (done : List Json)
  | object (done : List (String × Json)) (key : String)

/-- What the reader waits for: a value; a value or the end of an empty array; a key or the end
of an empty object; a key; the colon after a key; or whatever follows a finished value. -/
inductive Expecting where
  | value
  | valueOrClose
  | keyOrClose
  | key (done : List (String × Json))
  | colon (done : List (String × Json)) (key : String)
  | after (v : Json)

/-- A reader in the middle of a text: what it waits for, inside which open containers. -/
structure State where
  expecting : Expecting
  stack : List Frame

/-- Begin a value with a token. -/
def State.begin (stack : List Frame) : Token → Option State
  | .openArray =>
    if stack.length < depthLimit then some ⟨.valueOrClose, .array [] :: stack⟩ else none
  | .openObject => if stack.length < depthLimit then some ⟨.keyOrClose, stack⟩ else none
  | .str s => some ⟨.after (.str s), stack⟩
  | .num n => some ⟨.after (.num n), stack⟩
  | .bool b => some ⟨.after (.bool b), stack⟩
  | .null => some ⟨.after .null, stack⟩
  | _ => none

/-- Go on after a finished value inside the innermost open container. -/
def State.resume (v : Json) : List Frame → Token → Option State
  | .array done :: stack, .comma => some ⟨.value, .array (v :: done) :: stack⟩
  | .array done :: stack, .closeArray => some ⟨.after (.arr (v :: done).reverse), stack⟩
  | .object done k :: stack, .comma => some ⟨.key ((k, v) :: done), stack⟩
  | .object done k :: stack, .closeObject =>
    some ⟨.after (object ((k, v) :: done).reverse), stack⟩
  | _, _ => none

/-- Read one token. -/
def State.step (state : State) (token : Token) : Option State :=
  match state.expecting with
  | .value => begin state.stack token
  | .valueOrClose =>
    match token, state.stack with
    | .closeArray, .array _ :: stack => some ⟨.after (.arr []), stack⟩
    | _, stack => begin stack token
  | .keyOrClose =>
    match token with
    | .str k => some ⟨.colon [] k, state.stack⟩
    | .closeObject => some ⟨.after (.obj []), state.stack⟩
    | _ => none
  | .key done =>
    match token with
    | .str k => some ⟨.colon done k, state.stack⟩
    | _ => none
  | .colon done k =>
    match token with
    | .colon => some ⟨.value, .object done k :: state.stack⟩
    | _ => none
  | .after v => resume v state.stack token

/-- The value that has been read when no container is open any more. -/
def State.result? (state : State) : Option Json :=
  match state.expecting, state.stack with
  | .after v, [] => some v
  | _, _ => none

/-- The value that a list of tokens spells. -/
def ofTokens? (tokens : List Token) : Option Json := do
  (← tokens.foldlM State.step ⟨.value, []⟩).result?

/-- The value of a text, none when the text is malformed or nests too deeply. -/
def parse? (text : String) : Option Json := do
  ofTokens? (← Token.scanAll text.toList)

example : parse? "[1,\"a\"]" = some (.arr [.num (.int 1), .str "a"]) := by cbv
example : parse? "[1,]" = none := by cbv

end Transclude.Json
