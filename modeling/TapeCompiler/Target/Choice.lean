import TapeCompiler.Target.Assembly
import TapeCompiler.Target.C
import TapeCompiler.Text.Letter

/-!
# Choosing a target

Targets are chosen by name, without regard to case.
-/

namespace TapeCompiler

/-- A name that no target has. -/
structure UnknownTarget where
  name : Bytes
  deriving DecidableEq, Repr

namespace Target

/-- All targets, in the order of their names. -/
def all : List Target := [Assembly.target, C.target]

/-- The names of all targets. -/
def names : List String := all.map name

/-- The target with the given name. -/
def ofName? (name : Bytes) : Except UnknownTarget Target :=
  match all.find? fun t => Letter.isWord t.name name with
  | some t => .ok t
  | none => .error ⟨name⟩

end Target

/-- The wording of the refusal. -/
def UnknownTarget.message (e : UnknownTarget) : String :=
  let known := String.intercalate ", " Target.names
  s!"unknown target {Quoted.bytes e.name} (want one of {known})"

end TapeCompiler
