/-
  Environments: the variables a run is given.

  Key definitions include:
    * `Environment`
    * `Environment.value?`
    * `Environment.addNew`
-/

namespace Nullary

/- Variables with their values. -/
structure Environment where
  bindings : List (String × String)
deriving DecidableEq, Repr

namespace Environment

/- The environment without variables. -/
def empty : Environment :=
  ⟨[]⟩

/- The value of a variable, if it is set. -/
def value?
    (e : Environment)
    (name : String) : Option String :=
  (e.bindings.find? (·.1 == name)).map Prod.snd

/- Set a variable, unless it is set already. -/
def addNew
    (e : Environment)
    (name : String)
    (value : String) : Environment :=
  if (e.value? name).isSome then e else ⟨e.bindings ++ [(name, value)]⟩

end Environment

end Nullary
