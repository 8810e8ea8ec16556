import Chronicle.Node.Basic

/-!
# Chronicle.Node.Reads

The steps of the tasks around the read model: the consumer, which applies a stream's events one by
one under the lock, and the lookups that were begun under a name, which read without the lock and
keep what they found under it.
-/

namespace Chronicle
namespace Node

variable {A S B : Type} [Vocabulary A]

/-- Takes the lock for a task, or gets it in line; `none` if it is in line already. -/
def acquire (n : Node A S B) (t : TaskId) (taken : Node A S B → Node A S B) :
    Option (Node A S B) :=
  if n.lock.grants t then some (taken { n with lock := n.lock.take t })
  else if n.lock.waiting.contains t then none
  else some { n with lock := n.lock.enqueue t }

def putConsumer (n : Node A S B) (c : Consumer A) : Node A S B := { n with consumer := some c }

/-- Lets a new consumer follow a stream, in place of the one before. What the one before had not
applied is not applied any more. -/
def attach (n : Node A S B) (i : Nat) : Node A S B :=
  let (n, subscription) := n.subscribe i
  let n := match n.consumer with
    | some previous =>
      let n := n.modifyOutlet previous.stream fun outlet => outlet.drop previous.subscription
      { n with lock := n.lock.leave .consumer }
    | none => n
  ((n.dismiss .consumer).putConsumer { stream := i, subscription }).enlist .consumer

/-- Applies the event that the consumer has, and releases the lock. -/
def finishApply [DecidableEq S] (n : Node A S B) (c : Consumer A) (e : Event A)
    (earlier : Page A) : Node A S B :=
  let (model, _, notes) := n.model.apply e earlier
  ({ n with model, lock := n.lock.release }.note notes).putConsumer { c with phase := .idle }

def moveConsumer [DecidableEq S] (n : Node A S B) : Option (Node A S B) :=
  match n.consumer with
  | none => none
  | some c =>
    match c.phase with
    | .idle =>
      match (n.outlet c.stream).receive c.subscription with
      | (outlet, .item e) =>
        some ((n.modifyOutlet c.stream fun _ => outlet).putConsumer { c with phase := .locking e })
      | (_, .ended) => some ({ n with consumer := none }.dismiss .consumer)
      | (_, .pending) => none
    | .locking e => n.acquire .consumer fun n => n.putConsumer { c with phase := .applying e }
    | .applying e =>
      if n.model.needsRead e then
        let reading := n.store.readStream e.stream e.position
        let n := { n with store := reading.store }.note reading.notes
        some (n.putConsumer { c with phase := .holding e reading.page })
      else some (n.finishApply c e (.ok []))
    | .holding e earlier => if n.holdsAnswers then none else some (n.finishApply c e earlier)

/-- Begins a lookup of a stream under a name. -/
def lookUp (n : Node A S B) (name : String) (stream : StreamId) : Node A S B :=
  let lookup : Lookup A S := { name, stream }
  { n with lookups := n.lookups ++ [lookup] }.enlist (.lookup n.lookups.length)

def putLookup (n : Node A S B) (i : Nat) (l : Lookup A S) : Node A S B :=
  { n with lookups := n.lookups.set i l }

def finishLookup (n : Node A S B) (i : Nat) (l : Lookup A S)
    (answer : Except RuntimeError (Option S)) : Node A S B :=
  (n.putLookup i { l with phase := .answered answer }).dismiss (.lookup i)

def moveLookup (n : Node A S B) (i : Nat) : Option (Node A S B) :=
  match n.lookups[i]? with
  | none => none
  | some l =>
    match l.phase with
    | .asked =>
      match n.model.known? l.stream with
      | some state => some (n.finishLookup i l (.ok state))
      | none =>
        let reading := n.store.readStream l.stream Position.last
        let n := { n with store := reading.store }.note reading.notes
        some (n.putLookup i { l with phase := .holding reading.page })
    | .holding page =>
      if n.holdsAnswers then none
      else
        let (entry, notes) := ReadModel.backfilled n.model.projector page
        let n := n.note notes
        match entry with
        | .ok (some e) => some (n.putLookup i { l with phase := .locking e })
        | .ok none => some (n.finishLookup i l (.ok none))
        | .error failure => some (n.finishLookup i l (.error failure))
    | .locking e =>
      n.acquire (.lookup i) fun n =>
        let (model, state) := n.model.keep l.stream e
        { n with model, lock := n.lock.release }.finishLookup i l (.ok state)
    | .answered _ => none

/-- What the latest lookup of a name has come to. -/
def lookupAnswer? (n : Node A S B) (name : String) : Option (Except RuntimeError (Option S)) :=
  (n.lookups.findRev? fun l => l.name == name).bind fun l =>
    match l.phase with
    | .answered answer => some answer
    | _ => none

/-- Does something with the read model at once. -/
def serve {R : Type} (n : Node A S B) (f : ReadModel A S → Store A → Served A S R) :
    R × Node A S B :=
  let served := f n.model n.store
  (served.answer, { n with model := served.model, store := served.store }.note served.notes)

end Node
end Chronicle
