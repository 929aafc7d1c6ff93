import Graft.Merge.Writing

/-!
# Passes

The calls that are made on a session, one after the other, until its
outcome is written. A call that fails leaves the session as it was and
does not end the pass.
-/

namespace Graft.Merge

/-- What can be asked of a session. -/
inductive Call where
  /-- A class is to be imported. -/
  | importOf (qualified : Text)
  /-- A member of a signature is to have some code. -/
  | define (signature : Signature) (code : Text)
  deriving DecidableEq, Repr

namespace Session

/-- The session behind a call. -/
def perform (s : Session) : Call → Session
  | .importOf qualified => (s.ensureImport qualified).1
  | .define signature code =>
    match s.define signature code with
    | .ok (s', _) => s'
    | .error _ => s

/-- The session behind calls. -/
def run (s : Session) (calls : List Call) : Session := calls.foldl perform s

@[simp] theorem run_nil (s : Session) : s.run [] = s := rfl

@[simp] theorem run_cons (s : Session) (call : Call) (calls : List Call) :
    s.run (call :: calls) = (s.perform call).run calls := rfl

end Session

end Graft.Merge
