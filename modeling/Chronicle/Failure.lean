/-!
# Chronicle.Failure

The business outcomes that are not successes. Independent failures combine: `combine` lists the
leaves of both sides side by side, so a combined failure never nests, and `none` adds nothing.

* `leaves`: the single failures of a tree, from left to right.
* `combine`, `collect`: the normal form of the leaves of both, of all.
-/

namespace Chronicle

inductive Failure where
  | forbidden (message : String)
  | notFound (message : String)
  | conflict (message : String)
  | internal (message : String)
  | invalidInput (message : String)
  | cancelled (message : String)
  | multiple (children : List Failure)

namespace Failure

def none : Failure := .multiple []

mutual

/-- The single failures, from left to right. -/
def leaves : Failure → List Failure
  | .multiple children => leavesOf children
  | .forbidden m => [.forbidden m]
  | .notFound m => [.notFound m]
  | .conflict m => [.conflict m]
  | .internal m => [.internal m]
  | .invalidInput m => [.invalidInput m]
  | .cancelled m => [.cancelled m]

def leavesOf : List Failure → List Failure
  | [] => []
  | f :: rest => leaves f ++ leavesOf rest

end

/-- One failure stands for itself, any other number of them is listed. -/
def ofLeaves : List Failure → Failure
  | [single] => single
  | several => .multiple several

def combine (a b : Failure) : Failure := ofLeaves (a.leaves ++ b.leaves)

def collect (failures : List Failure) : Failure := failures.foldl combine none

/-- Whether this is the failure that lists nothing. -/
def isNone : Failure → Bool
  | .multiple [] => true
  | _ => false

mutual

/-- The message; the messages of several failures are joined by semicolons. -/
def message : Failure → String
  | .multiple children => String.intercalate "; " (messages children)
  | .forbidden m => m
  | .notFound m => m
  | .conflict m => m
  | .internal m => m
  | .invalidInput m => m
  | .cancelled m => m

def messages : List Failure → List String
  | [] => []
  | f :: rest => message f :: messages rest

end

def label : Failure → String
  | .forbidden _ => "Forbidden"
  | .notFound _ => "NotFound"
  | .conflict _ => "Conflict"
  | .internal _ => "Internal"
  | .invalidInput _ => "InvalidInput"
  | .cancelled _ => "Cancelled"
  | .multiple _ => "Multiple"

/-- Kind and message. -/
def render (f : Failure) : String := f.label ++ ": " ++ f.message

mutual

def decEq (a b : Failure) : Decidable (a = b) := by
  cases a <;> cases b
  case multiple.multiple as bs =>
    exact match decEqList as bs with
      | isTrue h => isTrue (by rw [h])
      | isFalse h => isFalse (fun e => h (Failure.multiple.inj e))
  case forbidden.forbidden x y =>
    exact if h : x = y then isTrue (by rw [h]) else isFalse (fun e => h (Failure.forbidden.inj e))
  case notFound.notFound x y =>
    exact if h : x = y then isTrue (by rw [h]) else isFalse (fun e => h (Failure.notFound.inj e))
  case conflict.conflict x y =>
    exact if h : x = y then isTrue (by rw [h]) else isFalse (fun e => h (Failure.conflict.inj e))
  case internal.internal x y =>
    exact if h : x = y then isTrue (by rw [h]) else isFalse (fun e => h (Failure.internal.inj e))
  case invalidInput.invalidInput x y =>
    exact if h : x = y then isTrue (by rw [h])
      else isFalse (fun e => h (Failure.invalidInput.inj e))
  case cancelled.cancelled x y =>
    exact if h : x = y then isTrue (by rw [h]) else isFalse (fun e => h (Failure.cancelled.inj e))
  all_goals exact isFalse (fun e => nomatch e)

def decEqList (as bs : List Failure) : Decidable (as = bs) :=
  match as, bs with
  | [], [] => isTrue rfl
  | [], _ :: _ => isFalse (fun e => nomatch e)
  | _ :: _, [] => isFalse (fun e => nomatch e)
  | a :: as, b :: bs =>
    match decEq a b, decEqList as bs with
    | isTrue h, isTrue t => isTrue (by rw [h, t])
    | isFalse h, _ => isFalse (fun e => h (List.cons.inj e).1)
    | _, isFalse t => isFalse (fun e => t (List.cons.inj e).2)

end

instance : DecidableEq Failure := decEq

end Failure

/-- What an operation that may fail in business terms yields. -/
abbrev Result := Except Failure String

instance : DecidableEq Result := fun a b =>
  match a, b with
  | .ok x, .ok y => if h : x = y then isTrue (by rw [h]) else isFalse (fun e => h (Except.ok.inj e))
  | .error x, .error y =>
    if h : x = y then isTrue (by rw [h]) else isFalse (fun e => h (Except.error.inj e))
  | .ok _, .error _ => isFalse (fun e => nomatch e)
  | .error _, .ok _ => isFalse (fun e => nomatch e)

end Chronicle
