import KubeConsole.Theory.Tree
import KubeConsole.Web.Js

/-!
The values of `JSON.parse`. The entries of a record are in the order of `Object.entries`; a
number is known by what `===` tells of it.
-/
namespace KubeConsole.Web
open KubeConsole.Theory

inductive Scalar (N : Type) where
  | null
  | bool (b : Bool)
  | num (n : N)
  | str (s : JStr)
  deriving DecidableEq, Repr

/-- `unknown`, where it comes from `JSON.parse`. -/
abbrev Json (N : Type) := DataTree JStr (Scalar N)

/-- `Record<string, unknown>`. -/
abbrev Record (N : Type) := List (JStr × Json N)

/-- What `JSON.parse` returns: the keys of every record in it are distinct. -/
structure Document (N : Type) where
  value : Json N
  distinct : value.Distinct

variable {N : Type}

/-- A scalar that is neither `null` nor `""`. -/
def Scalar.nonEmpty : Scalar N → Bool
  | .null => false
  | .str s => s ≠ []
  | _ => true

end KubeConsole.Web
