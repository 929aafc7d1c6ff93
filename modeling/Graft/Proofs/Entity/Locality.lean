import Graft.Entity.Reading
import Graft.Proofs.Results

/-!
# What the reading of a declaration depends on

A declaration is read in a scope and under settings. The text around it, the
path of its file and its place only show in errors and in the check against
tampering: wherever it can be read at all, it contributes the same
(`agree_readMember`).
-/

namespace Graft.Entity

open Java

namespace Site

/-- Two types in whose bodies declarations stand for the same: their scopes and
settings are equal. -/
structure Alike (s s' : Site) : Prop where
  scope : s.scope = s'.scope
  settings : s.settings = s'.settings

section

variable {s s' : Site} (h : s.Alike s')

include h

theorem Alike.marks (m : Modifiers) : s.marks m = s'.marks m := by
  rw [Site.marks, Site.marks, h.scope, h.settings]

theorem agree_typeAt (text : Text) (l l' : Location) :
    Agree (s.typeAt text l) (s'.typeAt text l') := by
  rw [typeAt, typeAt, h.scope]
  exact (Agree.refl _).mapError _ _

omit h in
theorem agree_variableOf (s s' : Site) (type : TypeRef) (name : Text) :
    Agree (s.variableOf type name) (s'.variableOf type name) := by
  unfold variableOf
  split
  · exact .refl _
  · exact .error_left _ _

theorem agree_readAt {α : Type} (m : Modifiers) (shape : Shape α) (l l' : Location) :
    Agree ((s.marks m).readAt shape l) ((s'.marks m).readAt shape l') := by
  rw [h.marks]
  exact (Agree.refl _).mapError _ _

theorem agree_hasAt {α : Type} (m : Modifiers) (shape : Shape α) (l l' : Location) :
    Agree ((s.marks m).hasAt shape l) ((s'.marks m).hasAt shape l') := by
  rw [h.marks]
  exact (Agree.refl _).mapError _ _

/-- Who looks after a declaration does not depend on its code, which can
only be refused. -/
theorem agree_provenance (m : Modifiers) (span : Span) (l l' : Location) :
    Agree (s.provenance (s.marks m) span l) (s'.provenance (s'.marks m) span l') := by
  unfold provenance
  refine (agree_hasAt h m _ l l').bind fun keeps => ?_
  cases keeps with
  | true => exact .refl _
  | false =>
    rw [h.marks, h.scope]
    refine ((Agree.refl _).mapError _ _).bind fun mark => ?_
    cases mark with
    | none => exact .refl _
    | some use =>
      refine ((Agree.refl _).mapError _ _).bind fun hash => ?_
      dsimp only
      split
      · exact .refl _
      · split
        · split
          · exact .refl _
          · exact .error_right _ _
        · exact .error_left _ _

theorem agree_readParameters (l l' : Location) (ps : List Parameter) :
    Agree (s.readParameters l ps) (s'.readParameters l' ps) := by
  induction ps with
  | nil => exact .refl _
  | cons p rest ih =>
    rw [readParameters, readParameters]
    refine (agree_typeAt h _ l l').bind fun type => ?_
    refine (agree_variableOf s s' type p.name).bind fun v => ?_
    exact ih.bind fun vs => .pure _

theorem agree_readMethod (m : MethodDecl) :
    Agree (s.readMethod m) (s'.readMethod m) := by
  unfold readMethod
  refine (agree_provenance h _ _ _ _).bind fun p => ?_
  exact (agree_readParameters h _ _ _).bind fun vs => .pure _

theorem agree_readConstructor (c : ConstructorDecl) :
    Agree (s.readConstructor c) (s'.readConstructor c) := by
  unfold readConstructor
  refine (agree_provenance h _ _ _ _).bind fun p => ?_
  exact (agree_readParameters h _ _ _).bind fun vs => .pure _

omit h in
theorem agree_targetArgument (type : TypeRef) (l l' : Location) :
    Agree (targetArgument type l) (targetArgument type l') := by
  unfold targetArgument
  split
  · exact .refl _
  · exact .error_left _ _

theorem agree_readToMany (f : FieldDecl) (d : Declarator) (type : TypeRef)
    (r : RelationMark) (l l' : Location) :
    Agree (s.readToMany f d type r l) (s'.readToMany f d type r l') := by
  unfold readToMany
  refine (agree_targetArgument type l l').bind fun target => ?_
  refine (agree_readAt h _ _ l l').bind fun join => ?_
  refine (agree_readAt h _ _ l l').bind fun order => ?_
  exact (agree_variableOf s s' type d.name).bind fun v => .pure _

theorem agree_readToOne (f : FieldDecl) (d : Declarator) (type : TypeRef)
    (r : RelationMark) (isNotNull : Bool) (l l' : Location) :
    Agree (s.readToOne f d type r isNotNull l)
      (s'.readToOne f d type r isNotNull l') := by
  have hhandle : s.isHandle type = s'.isHandle type := by rw [isHandle,
    isHandle, h.settings]
  unfold readToOne
  rw [hhandle]
  dsimp only
  split
  · refine (agree_targetArgument type l l').bind fun target => ?_
    refine (agree_variableOf s s' type d.name).bind fun v => ?_
    refine (agree_readAt h _ _ l l').bind fun column => ?_
    exact (agree_hasAt h _ _ l l').bind fun isUnique => .pure _
  · refine (agree_variableOf s s' type d.name).bind fun v => ?_
    refine (agree_readAt h _ _ l l').bind fun column => ?_
    exact (agree_hasAt h _ _ l l').bind fun isUnique => .pure _

theorem agree_readProperty (f : FieldDecl) (d : Declarator) (type : TypeRef)
    (isNotNull : Bool) (l l' : Location) :
    Agree (s.readProperty f d type isNotNull l)
      (s'.readProperty f d type isNotNull l') := by
  unfold readProperty
  refine (agree_readAt h _ _ l l').bind fun convert => ?_
  refine (agree_readAt h _ _ l l').bind fun id => ?_
  refine (agree_readAt h _ _ l l').bind fun index => ?_
  refine (agree_variableOf s s' type d.name).bind fun v => ?_
  refine (agree_readAt h _ _ l l').bind fun column => ?_
  refine (agree_readAt h _ _ l l').bind fun uid => ?_
  exact (agree_hasAt h _ _ l l').bind fun isUnique => .pure _

theorem agree_readStored (f : FieldDecl) (d : Declarator) :
    Agree (s.readStored f d) (s'.readStored f d) := by
  unfold readStored
  refine (agree_typeAt h _ _ _).bind fun type => ?_
  have hspelling (l l' : Location) :
      Agree (orAmbiguous l (s.marks f.modifiers).notNullSpelling?)
      (orAmbiguous l' (s'.marks f.modifiers).notNullSpelling?) := by
    rw [h.marks]
    exact (Agree.refl _).mapError _ _
  refine (hspelling _ _).bind fun spelling => ?_
  refine (agree_readAt h _ _ _ _).bind fun relation? => ?_
  cases relation? with
  | some relation =>
    have hlist : s.isListLike type = s'.isListLike type := by
      rw [isListLike, isListLike, h.settings]
    dsimp only
    rw [hlist]
    split
    · exact (agree_readToMany h _ _ _ _ _ _).bind fun r => .pure _
    · exact (agree_readToOne h _ _ _ _ _ _ _).bind fun r => .pure _
  | none =>
    have hhandle : s.isHandle type = s'.isHandle type := by rw [isHandle,
      isHandle, h.settings]
    dsimp only
    rw [hhandle]
    split
    · exact .refl _
    · exact (agree_readProperty h _ _ _ _ _ _).bind fun p => .pure _

theorem agree_readTransient (f : FieldDecl) (p : Provenance) (l l' : Location)
    (d : Declarator) :
    Agree (s.readTransient f p l d) (s'.readTransient f p l' d) := by
  unfold readTransient
  refine (agree_typeAt h _ l l').bind fun type => ?_
  exact (agree_variableOf s s' type d.name).bind fun v => .pure _

theorem agree_isTransient (f : FieldDecl) (l l' : Location) :
    Agree (s.isTransient f l) (s'.isTransient f l') := by
  unfold isTransient
  split
  · exact .refl _
  · exact agree_hasAt h _ _ l l'

theorem agree_readField (f : FieldDecl) : Agree (s.readField f) (s'.readField f) := by
  unfold readField
  refine (agree_isTransient h f _ _).bind fun isTransient => ?_
  cases isTransient with
  | true =>
    refine (agree_provenance h _ _ _ _).bind fun p => ?_
    exact (Agree.mapM (fun d => agree_readTransient h f p _ _ d) _).bind
      fun parts => .pure _
  | false =>
    exact (Agree.mapM (fun d => agree_readStored h f d) _).bind fun parts => .pure _

/-- **A declaration contributes the same** wherever its scope and the settings
are the same. -/
theorem agree_readMember (d : Declaration) :
    Agree (s.readMember d) (s'.readMember d) := by
  cases d with
  | field f => exact agree_readField h f
  | method m => exact agree_readMethod h m
  | constructor c => exact agree_readConstructor h c
  | nested t => exact .refl _

end

end Site

end Graft.Entity
