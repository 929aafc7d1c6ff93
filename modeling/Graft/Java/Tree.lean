import Graft.Java.Token

/-!
# Bracketed tokens

Tokens grouped by the round, square and curly brackets around them. A closing
bracket that does not fit the innermost open one stays as a stray; brackets
still open at the end of the text are closed there.
-/

namespace Graft.Java

/-- A token, a pair of brackets with what stands between them, or a stray
closing bracket. -/
inductive Tree where
  | leaf (t : Token)
  | group (left : Token) (inner : List Tree) (right : Token)
  | stray (t : Token)
  deriving Inhabited

/-- The closing bracket that fits an opening one. -/
def closingOf? (t : Token) : Option Text :=
  if t.isSign "(" then some ")"
  else if t.isSign "[" then some "]"
  else if t.isSign ['\x7b'] then some ['\x7d']
  else none

/-- Whether a token is a closing bracket. -/
def isClosing (t : Token) : Bool := t.isSign ")" || t.isSign "]" || t.isSign ['\x7d']

namespace Tree

/-- The first token of a tree. -/
def first : Tree → Token
  | .leaf t => t
  | .group left _ _ => left
  | .stray t => t

/-- The last token of a tree. -/
def last : Tree → Token
  | .leaf t => t
  | .group _ _ right => right
  | .stray t => t

/-- Whether the tree is a given sign. -/
def isSign (tree : Tree) (sign : Text) : Bool :=
  match tree with
  | .leaf t => t.isSign sign
  | _ => false

/-- Whether the tree is a given word. -/
def isWord (tree : Tree) (word : Text) : Bool :=
  match tree with
  | .leaf t => t.isWord word
  | _ => false

/-- The token of a tree that is a single word. -/
def word? : Tree → Option Token
  | .leaf t => if t.kind = .word then some t else none
  | _ => none

/-- Whether the tree is a pair of brackets with a given opening one. -/
def isGroup (tree : Tree) (left : Text) : Bool :=
  match tree with
  | .group l _ _ => l.isSign left
  | _ => false

/-- Whether the tree is a pair of curly brackets. -/
def isBlock (tree : Tree) : Bool := tree.isGroup ['\x7b']

/-- Whether the tree is a stray closing bracket. -/
def isStray : Tree → Bool
  | .stray _ => true
  | _ => false

mutual

/-- The number of tokens in a tree. -/
def size : Tree → Nat
  | .group _ inner _ => sizes inner + 2
  | _ => 1

/-- The number of tokens in trees. -/
def sizes : List Tree → Nat
  | [] => 0
  | t :: rest => size t + sizes rest

end

/-- Closes brackets that are still open, innermost first, at the token `finish`.
The trees of each level are given last one first. -/
def closeAll (finish : Token) : List (Token × List Tree) → List Tree → List Tree
  | [], done => done.reverse
  | (left, outer) :: open', done => closeAll finish open' (.group left done.reverse finish :: outer)

/-- Groups tokens. `open'` holds the brackets that are open, innermost first,
each with the trees before it; `done` holds the trees since the innermost one;
both are given last one first. -/
def groupFrom (finish : Token) :
    (open' : List (Token × List Tree)) → (done : List Tree) → List Token → List Tree
  | open', done, [] => closeAll finish open' done
  | open', done, t :: rest =>
    if (closingOf? t).isSome then groupFrom finish ((t, done) :: open') [] rest
    else if isClosing t then
      match open' with
      | (left, outer) :: open'' =>
        if closingOf? left == some t.text then
          groupFrom finish open'' (.group left done.reverse t :: outer) rest
        else groupFrom finish open' (.stray t :: done) rest
      | [] => groupFrom finish [] (.stray t :: done) rest
    else groupFrom finish open' (.leaf t :: done) rest

/-- Tokens grouped by their brackets. -/
def ofTokens (tokens : List Token) : List Tree :=
  let finish : Token := match tokens.getLast? with
    | some t => { kind := .sign, text := [], start := t.stop, line := t.line, doc := none }
    | none => default
  groupFrom finish [] [] tokens

mutual

/-- The number of runs of stray brackets in a tree. -/
def strayRunsIn : Tree → Nat
  | .group _ inner _ => strayRuns false inner
  | _ => 0

/-- The number of runs of stray brackets in trees; `inRun` says
that one came last. -/
def strayRuns (inRun : Bool) : List Tree → Nat
  | [] => 0
  | t :: rest =>
    if t.isStray then (if inRun then 0 else 1) + strayRuns true rest
    else strayRunsIn t + strayRuns false rest

end

end Tree

end Graft.Java
