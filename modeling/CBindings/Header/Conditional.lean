/-! The stack of open conditional groups and the branch selected in each. -/

namespace CBindings

/-- An open group: whether the text around it is kept, whether its current branch is, whether a
branch has been selected, whether `#else` was seen, and where it was opened. -/
structure Branch where
  parentActive : Bool
  active : Bool
  taken : Bool
  seenElse : Bool := false
  line : Nat := 0
  deriving DecidableEq, Repr

abbrev Branches := List Branch

namespace Branches

def active : Branches → Bool
  | [] => true
  | branch :: _ => branch.active

def openActive (branches : Branches) (line : Nat) (truth : Bool) : Branches :=
  ⟨true, truth, truth, false, line⟩ :: branches

def openInactive (branches : Branches) (line : Nat) : Branches :=
  ⟨false, false, true, false, line⟩ :: branches

def extendable? : Branches → Option (Branch × Branches)
  | [] => none
  | branch :: outer => if branch.seenElse then none else some (branch, outer)

def wantsCondition (branch : Branch) : Bool := branch.parentActive && !branch.taken

def elseIf (branch : Branch) (outer : Branches) (truth : Bool) : Branches :=
  { branch with active := truth, taken := truth } :: outer

def skipElseIf (branch : Branch) (outer : Branches) : Branches :=
  { branch with active := false } :: outer

def startElse (branch : Branch) (outer : Branches) : Branches :=
  { branch with seenElse := true, active := branch.parentActive && !branch.taken, taken := true } ::
    outer

end Branches

end CBindings
