import Graft.Entity.Basic
import Graft.Merge.Signature

/-!
# Members of the target type

A merge works on one type of a source. The type is looked up by its simple name,
outer types first, and its members are listed with their signatures and with who
looks after them, going by the simple names of their annotations.
-/

namespace Graft.Merge

open Java Entity

/-! ## Looking up the type -/

mutual

/-- How deep types are nested in a type, counting the type itself. -/
def typeHeight : TypeDecl → Nat
  | .mk _ _ _ members _ _ _ => membersHeight members + 1

/-- How deep types are nested in a list of members. -/
def membersHeight : List Declaration → Nat
  | [] => 0
  | d :: rest => max (memberHeight d) (membersHeight rest)

/-- How deep types are nested in a member. -/
def memberHeight : Declaration → Nat
  | .nested t => typeHeight t
  | _ => 0

end

/-- How deep types are nested in a list of types. -/
def typesHeight (ts : List TypeDecl) : Nat := (ts.map typeHeight).foldr max 0

/-- The first type of a name among types at one depth, or else among the types
inside them, level by level; with it the depth of its members. -/
def locateFrom (name : Text) : (levels depth : Nat) → List TypeDecl → Option (TypeDecl × Nat)
  | 0, _, _ => none
  | levels + 1, depth, types =>
    match types.find? (·.name == name) with
    | some t => some (t, depth)
    | none => locateFrom name levels (depth + 1) (types.flatMap TypeDecl.nestedTypes)

/-- The type of a simple name, outer types first, and the depth
of its members. -/
def locate? (types : List TypeDecl) (name : Text) : Option (TypeDecl × Nat) :=
  locateFrom name (typesHeight types) 1 types

/-! ## Listing the members -/

/-- Whether an annotation of a simple name is among the modifiers. -/
def hasMark (m : Modifiers) (simpleName : Text) : Bool :=
  m.annotations.any (·.simpleName == simpleName)

/-- The hash that the annotation of a generated member records. -/
def recordedHash? (u : AnnotationUse) : Option Int32 :=
  match u.arguments with
  | .named pairs =>
    match pairs.lookup "hash".toList with
    | some (.integer n) =>
      if Int32.minValue.toInt ≤ n ∧ n ≤ Int32.maxValue.toInt then some (Int32.ofInt n) else none
    | _ => none
  | _ => none

/-- Who looks after a declaration: the mark that keeps it goes before the one of
generated code. -/
def provenanceOf (m : Modifiers) : Provenance :=
  if hasMark m "Keep" then .keep
  else match m.annotations.find? (·.simpleName == "Generated".toList) with
    | some u => .generated (recordedHash? u)
    | none => .unmarked

/-- A member of the target type, and what a pass has decided about it. -/
structure Member where
  signature : Signature
  provenance : Provenance
  /-- The declaration with its documentation comment. -/
  extent : Extent
  line : Nat
  /-- Whether a candidate was held against the member. -/
  refreshed : Bool := false
  /-- The code to be written in its place. -/
  replacement : Option Text := none
  deriving Inhabited

/-- The signatures that a declaration declares; a field declaration may
declare several. -/
def signaturesOf : Declaration → List Signature
  | .field f => f.declarators.map fun d => .field d.name
  | .constructor c => [.constructor (c.parameters.map Parameter.typeText)]
  | .method m => [.method m.name (m.parameters.map Parameter.typeText)]
  | .nested _ => []

/-- The members that a declaration declares. -/
def membersOf (d : Declaration) : List Member :=
  (signaturesOf d).map fun signature =>
    { signature, provenance := provenanceOf d.modifiers, extent := d.extent, line := d.span.line }

/-- The members of a type, in source order. -/
def indexMembers (t : TypeDecl) : List Member := t.members.flatMap membersOf

end Graft.Merge
